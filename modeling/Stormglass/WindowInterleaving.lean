import Stormglass.PunctualRuns
import Stormglass.WindowOperator

/-!
# The order of the inputs does not matter

A schedule is one interleaving of the message sequences of the inputs. If each sequence is
on time, so is the stream that the operator gives to its processor: the combined watermark
never passes the last watermark of any input, so it never passes a record still to come.

Hence every schedule of the same sequences emits the same results: one for each key and
window, with the sum and count of all its records.
-/

namespace Stormglass.Snapshot

open LittleEndian KeyedWindowState
open CheckpointReader (FitsSigned ofMs_ms)

/-- The messages of all inputs in the order of their arrival. -/
abbrev Schedule := List (NodeId × Input)

/-- The messages of one input, in order. -/
def sequenceOf (input : NodeId) (schedule : Schedule) : List Input :=
  (schedule.filter (fun message => message.1 = input)).map Prod.snd

/-- The records of messages, in order. -/
def recordsOf (messages : List Input) : List Record := messages.filterMap Input.record?

/-- The watermarks of messages, in order. -/
def watermarksOf (messages : List Input) : List Timestamp := messages.filterMap Input.watermark?

/-- The last watermark of messages. -/
def lastWatermark (messages : List Input) : Timestamp := (watermarksOf messages).getLastD ⊥

/-- Watermarks never regress, and no record is older than a watermark before it. -/
structure Punctual (messages : List Input) : Prop where
  monotone : (watermarksOf messages).Pairwise (· ≤ ·)
  onTime : ∀ before record, before ++ [.record record] <+: messages →
    ∀ time ∈ watermarksOf before, time ≤ record.eventTime

/-- The key of a record fits into its length field, and its value into 64 bits. -/
def Input.Sendable : Input → Prop
  | .record data => data.key.length < 2 ^ 32 ∧ FitsSigned data.value
  | .watermark _ => True

namespace WindowOperator

/-- A message is read back from its payload. -/
theorem payload_read {message : Input} (sendable : message.Sendable) :
    ∃ bytes, payload message = .ok bytes ∧ readPayload.run bytes = .ok (message, []) := by
  cases message with
  | watermark time =>
    refine ⟨watermark time, rfl, ?_⟩
    have spelled : watermark time = encode 1 2 ++ (encodeSigned 8 time.ms ++ []) := by
      rw [watermark, List.append_nil]
    rw [spelled, readPayload, Decoder.bind_run (Decoder.u8_run (by decide) _), if_neg (by decide),
      if_pos rfl, Decoder.bind_run (Decoder.i64_run (CheckpointReader.Timestamp.fits time).bmod _),
      Decoder.bind_run Decoder.finish_run, ofMs_ms]
    rfl
  | record record =>
    obtain ⟨short, fits⟩ := sendable
    have key : Encoder.blob record.key = .ok (encode 4 record.key.length ++ record.key) :=
      Encoder.blob_eq_ok.mpr ⟨short, rfl⟩
    refine ⟨encode 1 1 ++ ((encode 4 record.key.length ++ record.key) ++
      (encodeSigned 8 record.value ++ (encodeSigned 8 record.eventTime.ms ++
        (encodeSigned 8 record.processingTime.ms ++ [])))), ?_, ?_⟩
    · rw [payload, data, key]
      simp only [List.append_assoc, List.append_nil]
      rfl
    · rw [readPayload, Decoder.bind_run (Decoder.u8_run (by decide) _), if_pos rfl,
        Decoder.bind_run (Decoder.blob_run key _), Decoder.bind_run (Decoder.i64_run fits.bmod _),
        Decoder.bind_run
          (Decoder.i64_run (CheckpointReader.Timestamp.fits record.eventTime).bmod _),
        Decoder.bind_run
          (Decoder.i64_run (CheckpointReader.Timestamp.fits record.processingTime).bmod _),
        Decoder.bind_run Decoder.finish_run, ofMs_ms, ofMs_ms]
      rfl

/-- A time is at most the combined watermark if it is at most the watermark of each input. -/
theorem le_combined_iff {watermarks : Std.ExtTreeMap NodeId Timestamp} {time : Timestamp} :
    time ≤ combined watermarks ↔
      ∀ (input : NodeId) current, watermarks[input]? = some current → time ≤ current := by
  have folded (entries : List (NodeId × Timestamp)) (start : Timestamp) :
      time ≤ entries.foldl (fun minimum entry => min minimum entry.2) start ↔
        time ≤ start ∧ ∀ entry ∈ entries, time ≤ entry.2 := by
    induction entries generalizing start with
    | nil => simp
    | cons entry rest inductionHypothesis =>
      rw [List.foldl_cons, inductionHypothesis, le_min_iff]
      simp [and_assoc]
  rw [combined, Std.ExtTreeMap.foldl_eq_foldl_toList, folded]
  constructor
  · rintro ⟨_, all⟩ input current found
    exact all (input, current) (Std.ExtTreeMap.mem_toList_iff_getElem?_eq_some.mpr found)
  · intro all
    refine ⟨le_top, ?_⟩
    rintro ⟨input, current⟩ member
    exact all input current (Std.ExtTreeMap.mem_toList_iff_getElem?_eq_some.mp member)

theorem addInputs_spec {inputs : List NodeId} {before after : Std.ExtTreeMap NodeId Timestamp}
    (added : addInputs inputs before = .ok after) :
    inputs.Nodup ∧ (∀ input ∈ inputs, input ∉ before) ∧
      ∀ input : NodeId, after[input]? = if input ∈ inputs then some ⊥ else before[input]? := by
  induction inputs generalizing before with
  | nil =>
    cases added
    simp
  | cons first rest inductionHypothesis =>
    rw [addInputs] at added
    split_ifs at added with present
    obtain ⟨distinct, absent, entries⟩ := inductionHypothesis added
    have fresh : first ∉ rest := by
      intro again
      exact absent first again (Std.ExtTreeMap.mem_insert.mpr (.inl Std.ReflOrd.compare_self))
    refine ⟨List.nodup_cons.mpr ⟨fresh, distinct⟩, ?_, ?_⟩
    · rintro input (_ | ⟨_, member⟩) stored
      · exact present stored
      · exact absent input member (Std.ExtTreeMap.mem_insert.mpr (.inr stored))
    · intro input
      rw [entries, Std.ExtTreeMap.getElem?_insert]
      by_cases same : first = input
      · subst same
        simp [fresh]
      · simp [same, Ne.symm same]

theorem addInputs_size {inputs : List NodeId} {before after : Std.ExtTreeMap NodeId Timestamp}
    (added : addInputs inputs before = .ok after) : after.size = before.size + inputs.length := by
  induction inputs generalizing before with
  | nil =>
    cases added
    rfl
  | cons first rest inductionHypothesis =>
    rw [addInputs] at added
    split_ifs at added with present
    have grown := inductionHypothesis added
    have absent : ¬ before.contains first = true := fun stored =>
      present (Std.ExtTreeMap.mem_iff_contains.mpr stored)
    rw [Std.ExtTreeMap.size_insert, if_neg absent] at grown
    rw [grown, List.length_cons]
    omega

/-- A constructor that returns has passed its checks. -/
theorem create_eq {inputs : List NodeId} {windowMs slideMs latenessMs : Int64}
    {operator : WindowOperator}
    (created : create inputs windowMs slideMs latenessMs = .ok operator) :
    inputs ≠ [] ∧ ∃ kind watermarks, chooseAssigner windowMs slideMs = .ok kind ∧
      addInputs inputs ∅ = .ok watermarks ∧
      operator =
        { watermarks := watermarks
          windowMs := windowMs
          slideMs := slideMs
          latenessMs := latenessMs
          processor := .create kind.makeAssigner latenessMs.toInt.toNat false } := by
  unfold create at created
  by_cases invalid : inputs = [] ∨ slideMs.toInt < 0
  · simp [invalid] at created
    cases created
  · cases added : addInputs inputs ∅ with
    | error failure =>
      simp [invalid, added] at created
      cases created
    | ok watermarks =>
      cases chosen : chooseAssigner windowMs slideMs with
      | error failure =>
        simp [invalid, added, chosen] at created
        cases created
      | ok kind =>
        by_cases negative : latenessMs.toInt < 0
        · simp [invalid, added, chosen, negative] at created
          cases created
        · simp [invalid, added, chosen, negative] at created
          cases created
          exact ⟨fun none => invalid (.inl none), kind, watermarks, rfl, rfl, rfl⟩

/-- What a new operator is: every input stands at the least time, and the processor is new. -/
theorem create_spec {inputs : List NodeId} {windowMs slideMs latenessMs : Int64}
    {operator : WindowOperator}
    (created : create inputs windowMs slideMs latenessMs = .ok operator) :
    ∃ kind, chooseAssigner windowMs slideMs = .ok kind ∧ inputs.Nodup ∧
      (∀ input : NodeId, operator.watermarks[input]? = if input ∈ inputs then some ⊥ else none) ∧
      operator.processor = .create kind.makeAssigner latenessMs.toInt.toNat false ∧
      operator.records = 0 := by
  obtain ⟨-, kind, watermarks, chosen, added, rfl⟩ := create_eq created
  obtain ⟨distinct, -, entries⟩ := addInputs_spec added
  refine ⟨kind, chosen, distinct, ?_, rfl, rfl⟩
  intro input
  rw [entries]
  simp

end WindowOperator

section Schedules

theorem sequenceOf_append_same (schedule : Schedule) (input : NodeId) (message : Input) :
    sequenceOf input (schedule ++ [(input, message)]) = sequenceOf input schedule ++ [message] := by
  simp [sequenceOf]

theorem sequenceOf_append_other (schedule : Schedule) {sender input : NodeId}
    (other : sender ≠ input) (message : Input) :
    sequenceOf input (schedule ++ [(sender, message)]) = sequenceOf input schedule := by
  simp [sequenceOf, other]

theorem recordsOf_append (first second : List Input) :
    recordsOf (first ++ second) = recordsOf first ++ recordsOf second :=
  List.filterMap_append

theorem watermarksOf_append (first second : List Input) :
    watermarksOf (first ++ second) = watermarksOf first ++ watermarksOf second :=
  List.filterMap_append

theorem lastWatermark_append_record (messages : List Input) (record : Record) :
    lastWatermark (messages ++ [.record record]) = lastWatermark messages := by
  simp [lastWatermark, watermarksOf, Input.watermark?]

theorem lastWatermark_append_watermark (messages : List Input) (time : Timestamp) :
    lastWatermark (messages ++ [.watermark time]) = time := by
  simp [lastWatermark, watermarksOf, Input.watermark?]

variable {messages : List Input}

/-- A bound of all watermarks bounds the last one. -/
theorem lastWatermark_le {bound : Timestamp}
    (bounded : ∀ time ∈ watermarksOf messages, time ≤ bound) : lastWatermark messages ≤ bound := by
  rw [lastWatermark, List.getLastD_eq_getLast?]
  cases last : (watermarksOf messages).getLast? with
  | none => exact bot_le
  | some time => exact bounded time (List.mem_of_getLast? last)

/-- An input on time never goes behind its last watermark. -/
theorem Punctual.lastWatermark_le_record {record : Record}
    (punctual : Punctual (messages ++ [.record record])) :
    lastWatermark messages ≤ record.eventTime :=
  lastWatermark_le (punctual.onTime messages record List.prefix_rfl)

theorem Punctual.lastWatermark_le_watermark {time : Timestamp}
    (punctual : Punctual (messages ++ [.watermark time])) : lastWatermark messages ≤ time := by
  have ordered := punctual.monotone
  rw [watermarksOf_append, List.pairwise_append] at ordered
  apply lastWatermark_le
  intro earlier member
  exact ordered.2.2 earlier member time (by simp [watermarksOf, Input.watermark?])

theorem Punctual.dropLast {last : Input} (punctual : Punctual (messages ++ [last])) :
    Punctual messages := by
  constructor
  · have ordered := punctual.monotone
    rw [watermarksOf_append, List.pairwise_append] at ordered
    exact ordered.1
  · intro before record starts
    exact punctual.onTime before record (starts.trans (List.prefix_append _ _))

end Schedules

/-- What a schedule has to keep: it names known inputs, its messages can be sent, each input
is on time, event times lie in the domain, and neither the record count nor the sum of a
pane leaves 64 bits. -/
structure Admissible (inputs : List NodeId) (assigner : WindowAssigner) (schedule : Schedule) :
    Prop where
  known : ∀ message ∈ schedule, message.1 ∈ inputs
  sendable : ∀ message ∈ schedule, message.2.Sendable
  punctual : ∀ input, Punctual (sequenceOf input schedule)
  domain : ∀ record ∈ recordsOf (schedule.map Prod.snd),
    ∃ windows, assigner record.eventTime = .ok windows
  few : (recordsOf (schedule.map Prod.snd)).length < 2 ^ 64
  sums : ∀ key window front,
    front <+: (recordsOf (schedule.map Prod.snd)).flatMap (contribution assigner key window) →
      FitsSigned front.sum

theorem contribution_makeAssigner (kind : AssignerType) (key : Bytes) (window : Window)
    (record : Record) : (contribution kind.makeAssigner key window record).length ≤ 1 := by
  cases kind with
  | tumbling assigner =>
    exact Exactly.contribution_length
      (fun windows assigned => (assigner.assignWindows_exactly assigned).2.2) key window
  | sliding assigner =>
    exact Exactly.contribution_length
      (fun windows assigned => (assigner.assignWindows_exactly assigned).2.2) key window

/-- Every beginning of an admissible schedule is admissible. -/
theorem Admissible.dropLast {inputs : List NodeId} {assigner : WindowAssigner}
    {schedule : Schedule} {message : NodeId × Input}
    (admissible : Admissible inputs assigner (schedule ++ [message])) :
    Admissible inputs assigner schedule := by
  have grows : recordsOf ((schedule ++ [message]).map Prod.snd) =
      recordsOf (schedule.map Prod.snd) ++ recordsOf [message.2] := by
    rw [List.map_append, recordsOf_append]
    rfl
  constructor
  · intro earlier member
    exact admissible.known earlier (List.mem_append_left _ member)
  · intro earlier member
    exact admissible.sendable earlier (List.mem_append_left _ member)
  · intro input
    obtain ⟨sender, last⟩ := message
    have punctual := admissible.punctual input
    by_cases owns : sender = input
    · subst owns
      rw [sequenceOf_append_same] at punctual
      exact punctual.dropLast
    · rwa [sequenceOf_append_other _ owns] at punctual
  · intro record member
    apply admissible.domain record
    rw [grows]
    exact List.mem_append_left _ member
  · have total := admissible.few
    rw [grows, List.length_append] at total
    omega
  · intro key window front early
    apply admissible.sums key window front
    rw [grows, List.flatMap_append]
    exact early.trans (List.prefix_append _ _)

theorem Admissible.left {inputs : List NodeId} {assigner : WindowAssigner}
    {first second : Schedule} (admissible : Admissible inputs assigner (first ++ second)) :
    Admissible inputs assigner first := by
  induction second using List.reverseRecOn with
  | nil => rwa [List.append_nil] at admissible
  | append_singleton second message inductionHypothesis =>
    rw [← List.append_assoc] at admissible
    exact inductionHypothesis admissible.dropLast

/-- The records of an admissible schedule overflow no pane. -/
theorem Admissible.representable {inputs : List NodeId} {kind : AssignerType} {schedule : Schedule}
    (admissible : Admissible inputs kind.makeAssigner schedule) (lateness : Nat) {items : Batch}
    (onTime : OnTime items) (same : records items = recordsOf (schedule.map Prod.snd)) :
    Representable kind.makeAssigner lateness items := by
  intro key window
  rw [(account_onTime lateness (kind.covers) onTime key window).1, contributions, same]
  intro front early
  obtain ⟨lower, upper⟩ := admissible.sums key window front early
  refine ⟨lower, upper, ?_⟩
  have shorter := early.length_le
  have once := List.sum_le_card_nsmul ((recordsOf (schedule.map Prod.snd)).map
    (fun record => (contribution kind.makeAssigner key window record).length)) 1 (by
      intro length member
      obtain ⟨record, _, rfl⟩ := List.mem_map.mp member
      exact contribution_makeAssigner kind key window record)
  rw [List.length_flatMap] at shorter
  rw [List.length_map, smul_eq_mul, mul_one] at once
  have few := admissible.few
  omega

/-- An operator that has applied a schedule. It holds the last watermark of each input, and
its processor has consumed a stream on time with the same records, whose watermarks no
input has left behind. -/
structure Serves (inputs : List NodeId) (assigner : WindowAssigner) (lateness : Nat)
    (schedule : Schedule) (items : Batch) (effects : List Effect) (operator : WindowOperator) :
    Prop where
  marks : ∀ input ∈ inputs,
    operator.watermarks[input]? = some (lastWatermark (sequenceOf input schedule))
  foreign : ∀ input, input ∉ inputs → operator.watermarks[input]? = none
  counted : operator.records = (recordsOf (schedule.map Prod.snd)).length
  tracks : TracksExactly assigner lateness items (emissions effects) operator.processor
  onTime : OnTime items
  same : records items = recordsOf (schedule.map Prod.snd)
  below : ∀ input ∈ inputs, highestWatermark items ≤ lastWatermark (sequenceOf input schedule)

namespace Serves

variable {inputs : List NodeId} {kind : AssignerType} {lateness : Nat} {schedule : Schedule}
  {items : Batch} {effects : List Effect} {operator : WindowOperator}

/-- A new operator has applied nothing. -/
theorem create {windowMs slideMs latenessMs : Int64}
    (created : WindowOperator.create inputs windowMs slideMs latenessMs = .ok operator) :
    ∃ kind : AssignerType, operator.processor.assigner = kind.makeAssigner ∧ inputs.Nodup ∧
      Serves inputs kind.makeAssigner latenessMs.toInt.toNat [] [] [] operator := by
  obtain ⟨kind, _, distinct, marks, processor, counted⟩ := WindowOperator.create_spec created
  refine ⟨kind, by rw [processor]; rfl, distinct, ?_⟩
  constructor
  · intro input member
    rw [marks, if_pos member]
    rfl
  · intro input absent
    rw [marks, if_neg absent]
  · exact counted
  · rw [processor]
    exact TracksExactly.create _ _ false
  · rintro before record ⟨rest, same⟩
    simp at same
  · rfl
  · intro input member
    exact bot_le

section

variable (serves : Serves inputs kind.makeAssigner lateness schedule items effects operator)

include serves

/-- A record on time is applied. -/
theorem record {input : NodeId} {record : Record}
    (admissible : Admissible inputs kind.makeAssigner (schedule ++ [(input, .record record)])) :
    ∃ after, operator.applyRecord record = .ok ([], after) ∧
      Serves inputs kind.makeAssigner lateness (schedule ++ [(input, .record record)])
        (items ++ [.record record]) effects after := by
  have known : input ∈ inputs := admissible.known (input, .record record) (by simp)
  have punctual := admissible.punctual input
  rw [sequenceOf_append_same] at punctual
  have grows : recordsOf ((schedule ++ [(input, Input.record record)]).map Prod.snd) =
      recordsOf (schedule.map Prod.snd) ++ [record] := by
    rw [List.map_append, recordsOf_append]
    rfl
  have same : records (items ++ [.record record]) =
      recordsOf ((schedule ++ [(input, Input.record record)]).map Prod.snd) := by
    rw [records_append, serves.same, grows]
    rfl
  have onTime : OnTime (items ++ [.record record]) := by
    intro before other starts
    rcases List.prefix_concat_iff.mp starts with whole | earlier
    · obtain ⟨rfl, last⟩ := List.append_inj' whole rfl
      cases last
      exact (serves.below input known).trans punctual.lastWatermark_le_record
    · exact serves.onTime before other earlier
  have domain : Assignable kind.makeAssigner (items ++ [.record record]) := by
    intro other member
    rw [same] at member
    exact admissible.domain other member
  obtain ⟨more, after, processed, tracks⟩ := serves.tracks.item (kind.covers) _ onTime
    domain (admissible.representable lateness onTime same)
  have room : operator.records ≠ 2 ^ 64 - 1 := by
    have few := admissible.few
    rw [grows, List.length_append, List.length_singleton] at few
    rw [serves.counted]
    omega
  rw [KeyedProcessor.processItem] at processed
  cases one : operator.processor.processRecord record with
  | error thrown => simp [one, Except.map] at processed
  | ok processor =>
    simp only [one, Except.map] at processed
    cases processed
    refine ⟨{ operator with processor := after, records := operator.records + 1 }, ?_, ?_⟩
    · rw [WindowOperator.applyRecord, if_neg room, one]
    · have still (other : NodeId) :
          lastWatermark (sequenceOf other (schedule ++ [(input, .record record)])) =
            lastWatermark (sequenceOf other schedule) := by
        by_cases owns : input = other
        · subst owns
          rw [sequenceOf_append_same, lastWatermark_append_record]
        · rw [sequenceOf_append_other _ owns]
      constructor
      · intro other member
        rw [still]
        exact serves.marks other member
      · exact serves.foreign
      · rw [grows, List.length_append, ← serves.counted]
        rfl
      · rw [emissions_nil, List.append_nil] at tracks
        exact tracks
      · exact onTime
      · exact same
      · intro other member
        rw [still, highestWatermark_record]
        exact serves.below other member

/-- A watermark that does not regress is applied. -/
theorem watermark {input : NodeId} {time : Timestamp}
    (admissible : Admissible inputs kind.makeAssigner (schedule ++ [(input, .watermark time)])) :
    ∃ item more after,
      operator.applyWatermark input (lastWatermark (sequenceOf input schedule)) time =
        .ok (more, after) ∧
      Serves inputs kind.makeAssigner lateness (schedule ++ [(input, .watermark time)])
        (items ++ [item]) (effects ++ more) after := by
  have known : input ∈ inputs := admissible.known (input, .watermark time) (by simp)
  have punctual := admissible.punctual input
  rw [sequenceOf_append_same] at punctual
  have forward := punctual.lastWatermark_le_watermark
  have same : recordsOf ((schedule ++ [(input, Input.watermark time)]).map Prod.snd) =
      recordsOf (schedule.map Prod.snd) := by
    rw [List.map_append, recordsOf_append]
    exact List.append_nil _
  have moved (other : NodeId) :
      lastWatermark (sequenceOf other (schedule ++ [(input, .watermark time)])) =
        if input = other then time else lastWatermark (sequenceOf other schedule) := by
    by_cases owns : input = other
    · subst owns
      rw [sequenceOf_append_same, lastWatermark_append_watermark, if_pos rfl]
    · rw [sequenceOf_append_other _ owns, if_neg owns]
  have marks (other : NodeId) (member : other ∈ inputs) :
      (operator.watermarks.insert input time)[other]? =
        some (lastWatermark (sequenceOf other (schedule ++ [(input, .watermark time)]))) := by
    rw [moved, Std.ExtTreeMap.getElem?_insert]
    simp only [Std.LawfulEqOrd.compare_eq_iff_eq]
    split
    · rfl
    · exact serves.marks other member
  let combined := WindowOperator.combined (operator.watermarks.insert input time)
  have onTime : OnTime (items ++ [watermarkItem combined operator.records]) := by
    intro before other starts
    rcases List.prefix_concat_iff.mp starts with whole | earlier
    · obtain ⟨_, last⟩ := List.append_inj' whole rfl
      cases last
    · exact serves.onTime before other earlier
  have records : records (items ++ [watermarkItem combined operator.records]) =
      recordsOf ((schedule ++ [(input, Input.watermark time)]).map Prod.snd) := by
    rw [records_append, serves.same, same]
    exact List.append_nil _
  have domain : Assignable kind.makeAssigner
      (items ++ [watermarkItem combined operator.records]) := by
    intro other member
    rw [records] at member
    exact admissible.domain other member
  obtain ⟨more, after, processed, tracks⟩ := serves.tracks.item (kind.covers) _ onTime
    domain (admissible.representable lateness onTime records)
  have applied : operator.processor.processControl
      { type := .watermark, watermark := combined, checkpointOffset := operator.records } =
        (more, after) := Except.ok.inj processed
  refine ⟨watermarkItem combined operator.records, more,
    { operator with
      watermarks := operator.watermarks.insert input time
      processor := after }, ?_, ?_⟩
  · rw [WindowOperator.applyWatermark, if_neg (not_lt.mpr forward)]
    dsimp only
    rw [applied]
  · constructor
    · exact marks
    · intro other absent
      have different : ¬ compare input other = .eq := by
        rw [Std.LawfulEqOrd.compare_eq_iff_eq]
        rintro rfl
        exact absent known
      change (operator.watermarks.insert input time)[other]? = none
      rw [Std.ExtTreeMap.getElem?_insert, if_neg different]
      exact serves.foreign other absent
    · rw [same]
      exact serves.counted
    · rw [emissions_append]
      exact tracks
    · exact onTime
    · exact records
    · intro other member
      rw [highestWatermark_watermark]
      apply max_le
      · -- The watermarks of the inputs only grow, so the earlier minima stay below them.
        rw [moved]
        split
        · next owns =>
          subst owns
          exact (serves.below input known).trans forward
        · exact serves.below other member
      · exact WindowOperator.le_combined_iff.mp le_rfl other _ (marks other member)

/-- Every message of an admissible schedule is applied. -/
theorem step {message : NodeId × Input}
    (admissible : Admissible inputs kind.makeAssigner (schedule ++ [message])) :
    ∃ bytes item more after, WindowOperator.payload message.2 = .ok bytes ∧
      operator.apply message.1 bytes = .ok (more, after) ∧
      Serves inputs kind.makeAssigner lateness (schedule ++ [message]) (items ++ [item])
        (effects ++ more) after := by
  obtain ⟨input, content⟩ := message
  have known : input ∈ inputs := admissible.known (input, content) (by simp)
  have sendable : content.Sendable := admissible.sendable (input, content) (by simp)
  obtain ⟨bytes, sent, read⟩ := WindowOperator.payload_read sendable
  have mark := serves.marks input known
  have touched : Serves inputs kind.makeAssigner lateness schedule items effects
      { operator with touched := true } :=
    ⟨serves.marks, serves.foreign, serves.counted, serves.tracks, serves.onTime, serves.same,
      serves.below⟩
  cases content with
  | record record =>
    obtain ⟨after, applied, next⟩ := touched.record admissible
    refine ⟨bytes, .record record, [], after, sent, ?_, ?_⟩
    · simp only [WindowOperator.apply, mark, read]
      exact applied
    · rw [List.append_nil]
      exact next
  | watermark time =>
    obtain ⟨item, more, after, applied, next⟩ := touched.watermark admissible
    refine ⟨bytes, item, more, after, sent, ?_, next⟩
    simp only [WindowOperator.apply, mark, read]
    exact applied

/-- An admissible schedule is applied to its end. -/
theorem applyAll {rest : Schedule}
    (admissible : Admissible inputs kind.makeAssigner (schedule ++ rest)) :
    ∃ payloads stream more final, WindowOperator.payloads rest = .ok payloads ∧
      operator.applyAll payloads = .ok (more, final) ∧
      Serves inputs kind.makeAssigner lateness (schedule ++ rest) stream (effects ++ more)
        final := by
  induction rest generalizing schedule items effects operator with
  | nil =>
    refine ⟨[], items, [], operator, rfl, rfl, ?_⟩
    rw [List.append_nil, List.append_nil]
    exact serves
  | cons message rest inductionHypothesis =>
    rw [← List.singleton_append, ← List.append_assoc] at admissible
    obtain ⟨bytes, item, first, middle, sent, applied, next⟩ := serves.step admissible.left
    obtain ⟨later, stream, more, final, encoded, finished, served⟩ :=
      inductionHypothesis next admissible
    refine ⟨(message.1, bytes) :: later, stream, first ++ more, final, ?_, ?_, ?_⟩
    · rw [WindowOperator.payloads, sent, encoded]
      rfl
    · rw [WindowOperator.applyAll, applied]
      change (middle.applyAll later >>= _) = _
      rw [finished]
      rfl
    · rw [List.append_assoc, List.append_assoc, List.singleton_append] at served
      exact served

end

end Serves

/-- A schedule is its inputs' sequences in some order. -/
theorem perm_sequences {inputs : List NodeId} (distinct : inputs.Nodup) {schedule : Schedule}
    (known : ∀ message ∈ schedule, message.1 ∈ inputs) :
    (schedule.map Prod.snd).Perm (inputs.flatMap (sequenceOf · schedule)) := by
  induction inputs generalizing schedule with
  | nil =>
    have empty : schedule = [] := by
      apply List.eq_nil_iff_forall_not_mem.mpr
      intro message member
      exact absurd (known message member) List.not_mem_nil
    rw [empty]
    exact .nil
  | cons input inputs inductionHypothesis =>
    obtain ⟨fresh, distinct⟩ := List.nodup_cons.mp distinct
    have foreign : ∀ message ∈ schedule.filter (fun message => !decide (message.1 = input)),
        message.1 ∈ inputs := by
      intro message member
      obtain ⟨listed, other⟩ := List.mem_filter.mp member
      rcases List.mem_cons.mp (known message listed) with same | later
      · simp [same] at other
      · exact later
    have rest := inductionHypothesis distinct foreign
    have others : inputs.flatMap (sequenceOf ·
          (schedule.filter (fun message => !decide (message.1 = input)))) =
        inputs.flatMap (sequenceOf · schedule) := by
      apply List.flatMap_congr
      intro other member
      rw [sequenceOf, List.filter_filter, sequenceOf]
      congr 1
      apply List.filter_congr
      intro message _
      by_cases owns : message.1 = other
      · have different : other ≠ input := fun same => fresh (same ▸ member)
        simp [owns, different]
      · simp [owns]
    rw [others] at rest
    have parts := (List.filter_append_perm (fun message => decide (message.1 = input))
      schedule).map Prod.snd
    rw [List.map_append] at parts
    exact parts.symm.trans (List.Perm.append_left _ rest)

/-- A schedule of the given sequences. -/
structure Interleaves (inputs : List NodeId) (sequences : NodeId → List Input)
    (schedule : Schedule) : Prop where
  known : ∀ message ∈ schedule, message.1 ∈ inputs
  each : ∀ input ∈ inputs, sequenceOf input schedule = sequences input

/-- Message sequences without late records: they can be sent, every input is on time, event
times lie in the domain, and the records can be counted in 64 bits. -/
structure OnTimeInputs (inputs : List NodeId) (assigner : WindowAssigner)
    (sequences : NodeId → List Input) : Prop where
  sendable : ∀ input ∈ inputs, ∀ message ∈ sequences input, message.Sendable
  punctual : ∀ input ∈ inputs, Punctual (sequences input)
  domain : ∀ input ∈ inputs, ∀ record ∈ recordsOf (sequences input),
    ∃ windows, assigner record.eventTime = .ok windows
  few : (inputs.flatMap (fun input => recordsOf (sequences input))).length < 2 ^ 64

/-- All partial sums of a schedule stay in 64 bits. -/
def SumsFit (assigner : WindowAssigner) (schedule : Schedule) : Prop :=
  ∀ key window front,
    front <+: (recordsOf (schedule.map Prod.snd)).flatMap (contribution assigner key window) →
      FitsSigned front.sum

/-- The values of all records of a key and window, input by input. -/
def allValues (inputs : List NodeId) (assigner : WindowAssigner)
    (sequences : NodeId → List Input) (key : Bytes) (window : Window) : List Int :=
  (inputs.flatMap (fun input => recordsOf (sequences input))).flatMap
    (contribution assigner key window)

section Runs

variable {inputs : List NodeId} {sequences : NodeId → List Input} {schedule : Schedule}

theorem Interleaves.perm_records (interleaves : Interleaves inputs sequences schedule)
    (distinct : inputs.Nodup) :
    (recordsOf (schedule.map Prod.snd)).Perm
      (inputs.flatMap (fun input => recordsOf (sequences input))) := by
  have mixed := (perm_sequences distinct interleaves.known).filterMap Input.record?
  rw [List.filterMap_flatMap] at mixed
  have each : inputs.flatMap (fun input => (sequenceOf input schedule).filterMap Input.record?) =
      inputs.flatMap (fun input => recordsOf (sequences input)) := by
    apply List.flatMap_congr
    intro input member
    rw [interleaves.each input member]
    rfl
  rw [each] at mixed
  exact mixed

/-- Every interleaving of sequences on time is admissible. -/
theorem Interleaves.admissible {assigner : WindowAssigner}
    (interleaves : Interleaves inputs sequences schedule) (distinct : inputs.Nodup)
    (onTime : OnTimeInputs inputs assigner sequences) (sums : SumsFit assigner schedule) :
    Admissible inputs assigner schedule := by
  have perm := interleaves.perm_records distinct
  constructor
  · exact interleaves.known
  · intro message member
    have known := interleaves.known message member
    apply onTime.sendable message.1 known
    rw [← interleaves.each message.1 known, sequenceOf, List.mem_map]
    exact ⟨message, List.mem_filter.mpr ⟨member, by simp⟩, rfl⟩
  · intro input
    by_cases known : input ∈ inputs
    · rw [interleaves.each input known]
      exact onTime.punctual input known
    · have silent : sequenceOf input schedule = [] := by
        rw [sequenceOf, List.map_eq_nil_iff, List.filter_eq_nil_iff]
        intro message member owns
        simp only [decide_eq_true_eq] at owns
        exact known (owns ▸ interleaves.known message member)
      rw [silent]
      refine ⟨List.Pairwise.nil, ?_⟩
      rintro before record ⟨rest, same⟩
      simp at same
  · intro record member
    obtain ⟨input, known, listed⟩ := List.mem_flatMap.mp (perm.mem_iff.mp member)
    exact onTime.domain input known record listed
  · rw [perm.length_eq]
    exact onTime.few
  · exact sums

/-- Two outputs with the same results for each key and window hold the same results. -/
theorem perm_of_resultsFor {first second : List WindowResult}
    (same : ∀ key window, resultsFor key window first = resultsFor key window second) :
    first.Perm second := by
  have counted (results : List WindowResult) (result : WindowResult) :
      results.count result =
        (resultsFor result.key result.window results).count result.result := by
    rw [resultsFor, List.count, List.countP_eq_length_filter, List.count, List.countP_map,
      List.countP_eq_length_filter, List.filter_filter]
    congr 1
    apply List.filter_congr
    intro other _
    obtain ⟨key, window, value⟩ := result
    obtain ⟨otherKey, otherWindow, otherValue⟩ := other
    rw [Bool.eq_iff_iff]
    simp only [beq_iff_eq, WindowResult.mk.injEq, Function.comp_apply, Bool.and_eq_true,
      decide_eq_true_eq]
    tauto
  rw [List.perm_iff_count]
  intro result
  rw [counted, counted, same]

/-- The final flush drops no record. -/
theorem finalFlush_dropped (processor : KeyedProcessor) :
    processor.finalFlush.2.stats.lateRecordsDropped = processor.stats.lateRecordsDropped := by
  rw [KeyedProcessor.finalFlush]
  split <;> rfl

/-- Every interleaving is applied, drops nothing, and emits the result of each key and window
once. -/
theorem Interleaves.results {windowMs slideMs latenessMs : Int64} {operator : WindowOperator}
    (created : WindowOperator.create inputs windowMs slideMs latenessMs = .ok operator)
    (onTime : OnTimeInputs inputs operator.processor.assigner sequences)
    (interleaves : Interleaves inputs sequences schedule)
    (sums : SumsFit operator.processor.assigner schedule) :
    ∃ payloads results final, WindowOperator.payloads schedule = .ok payloads ∧
      operator.run payloads = .ok (results, final) ∧
      (∀ key window, resultsFor key window results = expectedResults
        (allValues inputs operator.processor.assigner sequences key window)) ∧
      final.processor.stats.lateRecordsDropped = 0 ∧
      final.records = (inputs.flatMap (fun input => recordsOf (sequences input))).length := by
  obtain ⟨kind, assigns, distinct, fresh⟩ := Serves.create created
  rw [assigns] at onTime sums ⊢
  have admissible := interleaves.admissible distinct onTime sums
  have perm := interleaves.perm_records distinct
  obtain ⟨payloads, items, effects, final, sent, applied, serves⟩ := fresh.applyAll admissible
  rw [List.nil_append, List.nil_append] at serves
  refine ⟨payloads, emissions (effects ++ final.processor.finalFlush.1), final.finalFlush.2, sent,
    ?_, ?_, ?_, ?_⟩
  · rw [WindowOperator.run, applied]
    rfl
  · intro key window
    have flushed := serves.tracks.flush (kind.covers) serves.onTime key window
    have values := perm.flatMap_right (contribution kind.makeAssigner key window)
    rw [flushed, contributions, serves.same]
    exact expectedResults_perm values
  · have dropped := serves.tracks.dropped
    rw [lateRecords_onTime (kind.covers) serves.onTime] at dropped
    change final.processor.finalFlush.2.stats.lateRecordsDropped = 0
    rw [finalFlush_dropped, dropped]
    rfl
  · change final.records = _
    rw [← perm.length_eq, serves.counted]

/-- The order across inputs does not change the results. Any two interleavings of sequences
on time are applied completely, drop no record, and emit the same results up to order: for
each key and window one result, with the sum and count of all its records. -/
theorem results_independent_of_interleaving (inputs : List NodeId)
    (windowMs slideMs latenessMs : Int64) (operator : WindowOperator)
    (created : WindowOperator.create inputs windowMs slideMs latenessMs = .ok operator)
    (sequences : NodeId → List Input)
    (onTime : OnTimeInputs inputs operator.processor.assigner sequences)
    (first second : Schedule) (interleavesFirst : Interleaves inputs sequences first)
    (interleavesSecond : Interleaves inputs sequences second)
    (sumsFirst : SumsFit operator.processor.assigner first)
    (sumsSecond : SumsFit operator.processor.assigner second) :
    ∃ firstPayloads firstResults firstFinal secondPayloads secondResults secondFinal,
      WindowOperator.payloads first = .ok firstPayloads ∧
      operator.run firstPayloads = .ok (firstResults, firstFinal) ∧
      WindowOperator.payloads second = .ok secondPayloads ∧
      operator.run secondPayloads = .ok (secondResults, secondFinal) ∧
      firstResults.Perm secondResults ∧
      (∀ key window, resultsFor key window firstResults = expectedResults
        (allValues inputs operator.processor.assigner sequences key window)) ∧
      firstFinal.processor.stats.lateRecordsDropped = 0 ∧
      secondFinal.processor.stats.lateRecordsDropped = 0 := by
  obtain ⟨firstPayloads, firstResults, firstFinal, firstSent, firstRun, firstExpected,
    firstDropped, _⟩ := interleavesFirst.results created onTime sumsFirst
  obtain ⟨secondPayloads, secondResults, secondFinal, secondSent, secondRun, secondExpected,
    secondDropped, _⟩ := interleavesSecond.results created onTime sumsSecond
  refine ⟨firstPayloads, firstResults, firstFinal, secondPayloads, secondResults, secondFinal,
    firstSent, firstRun, secondSent, secondRun, ?_, firstExpected, firstDropped, secondDropped⟩
  apply perm_of_resultsFor
  intro key window
  rw [firstExpected, secondExpected]

/-- Records of small total magnitude keep all partial sums in range. -/
theorem sumsFit_of_magnitude {assigner : WindowAssigner} {schedule : Schedule}
    (light : ((recordsOf (schedule.map Prod.snd)).map (fun record =>
      assignedCount assigner record * record.value.natAbs)).sum ≤ 2 ^ 63 - 1) :
    SumsFit assigner schedule := by
  intro key window front early
  have total : (((recordsOf (schedule.map Prod.snd)).flatMap
      (contribution assigner key window)).map Int.natAbs).sum ≤ 2 ^ 63 - 1 := by
    refine le_trans ?_ light
    induction recordsOf (schedule.map Prod.snd) with
    | nil => exact Nat.le_refl 0
    | cons record rest inductionHypothesis =>
      rw [List.flatMap_cons, List.map_append, List.sum_append, List.map_cons, List.sum_cons]
      exact Nat.add_le_add (contribution_bounded assigner key window record).1 inductionHypothesis
  have covered := (early.sublist.map Int.natAbs).sum_le_sum (fun _ _ => Nat.zero_le _)
  have bounded := natAbs_sum_le front
  constructor <;> omega

/-- Two inputs with one record each and a watermark behind it. -/
def twoInputs : NodeId → List Input := fun input =>
  if input = 1 then [sample 3 5, .watermark (.ofMs 10)] else [sample 4 7, .watermark (.ofMs 20)]
where
  sample (time value : Int) : Input :=
    .record { key := [107], value := value, eventTime := .ofMs time, processingTime := .ofMs time }

/-- One input after the other. -/
def oneByOne : Schedule :=
  (twoInputs 1).map (fun message => (1, message)) ++ (twoInputs 2).map (fun message => (2, message))

/-- The inputs in turn. -/
def inTurn : Schedule :=
  [(2, twoInputs.sample 4 7), (1, twoInputs.sample 3 5), (2, .watermark (.ofMs 20)),
    (1, .watermark (.ofMs 10))]

/-- A record and a watermark behind it are on time. -/
theorem punctual_pair (record : Record) (time : Timestamp) :
    Punctual [.record record, .watermark time] := by
  constructor
  · exact List.pairwise_singleton _ time
  · rintro (_ | ⟨first, _ | ⟨second, more⟩⟩) other ⟨rest, same⟩ earlier member
    · cases member
    · simp at same
    · simp at same

/-- Both schedules of the two inputs have the same results. -/
theorem twoInputs_in_any_order : ∃ operator firstPayloads firstResults firstFinal secondPayloads
    secondResults secondFinal, WindowOperator.create [1, 2] 10 0 5 = .ok operator ∧
      WindowOperator.payloads oneByOne = .ok firstPayloads ∧
      operator.run firstPayloads = .ok (firstResults, firstFinal) ∧
      WindowOperator.payloads inTurn = .ok secondPayloads ∧
      operator.run secondPayloads = .ok (secondResults, secondFinal) ∧
      firstResults.Perm secondResults := by
  obtain ⟨operator, created⟩ : ∃ operator, WindowOperator.create [1, 2] 10 0 5 = .ok operator :=
    ⟨_, rfl⟩
  obtain ⟨kind, chosen, _, _, processor, _⟩ := WindowOperator.create_spec created
  have assigns : operator.processor.assigner = tenMs.assignWindows := by
    rw [processor]
    cases chosen
    rfl
  have onTime : OnTimeInputs [1, 2] operator.processor.assigner twoInputs := by
    rw [assigns]
    constructor
    · intro input _ message member
      rw [twoInputs] at member
      split at member <;> rcases member with _ | ⟨_, _ | ⟨_, ⟨⟩⟩⟩ <;>
        first | exact trivial | exact ⟨by decide, by decide, by decide⟩
    · intro input _
      rw [twoInputs]
      split <;> exact punctual_pair _ _
    · intro input _ record member
      rw [twoInputs] at member
      split at member <;> rcases member with _ | ⟨_, ⟨⟩⟩ <;> exact ⟨_, rfl⟩
    · decide +kernel
  have eachFirst : ∀ input ∈ [1, 2], sequenceOf input oneByOne = twoInputs input := by
    rintro input (_ | ⟨_, _ | ⟨_, ⟨⟩⟩⟩) <;> rfl
  have eachSecond : ∀ input ∈ [1, 2], sequenceOf input inTurn = twoInputs input := by
    rintro input (_ | ⟨_, _ | ⟨_, ⟨⟩⟩⟩) <;> rfl
  obtain ⟨firstPayloads, firstResults, firstFinal, secondPayloads, secondResults, secondFinal,
    firstSent, firstRun, secondSent, secondRun, same, _⟩ := results_independent_of_interleaving
    [1, 2] 10 0 5 operator created twoInputs onTime oneByOne inTurn
    ⟨by decide +kernel, eachFirst⟩ ⟨by decide +kernel, eachSecond⟩
    (sumsFit_of_magnitude (assigns ▸ by decide +kernel))
    (sumsFit_of_magnitude (assigns ▸ by decide +kernel))
  exact ⟨operator, firstPayloads, firstResults, firstFinal, secondPayloads, secondResults,
    secondFinal, created, firstSent, firstRun, secondSent, secondRun, same⟩

end Runs

end Stormglass.Snapshot
