import Stormglass.DurableFileSink

/-!
# Durable logs over the lives of their writers

A writer may be killed in the middle of a frame, and a later sink opens the log again. Over
any run of emissions, cuts and reopenings the log consists of the frames that the cuts have
spared and of a torn tail, and only a log that nobody has reopened since has one.

A call of `Emit` that throws leaves its sink open, so a later call can append to part of a
frame. The log stays intact as long as no call does; behind part of a frame there is always a
result that is not read back.
-/

namespace Stormglass.DurableFileSink

open LittleEndian CheckpointReader FramedLog

/-! ## Torn tails and their repair -/

/-- What happens to a log: a call of `Emit`, the death of the writer, after which the file
has only its first bytes, or the opening of a sink for appending. -/
inductive LogEvent where
  | emit (emission : Emission)
  | truncate (length : Nat)
  | reopen

/-- A log, and whether a sink has it open. -/
structure Log where
  file : Bytes := []
  writing : Bool := true
deriving DecidableEq

/-- One event. Only an open sink emits, and the calls of a run that is considered here
return; those that throw are considered below. -/
def Log.step (log : Log) : LogEvent → Option Log
  | .emit emission =>
    match log.writing, emit emission log.file with
    | true, (.ok (), file) => some { log with file := file }
    | _, _ => none
  | .truncate length => some { file := log.file.take length, writing := false }
  | .reopen =>
    match create .append {} log.file with
    | (.ok (), file) => some { file := file, writing := true }
    | (.error _, _) => none

/-- The results whose frames lie entirely inside the surviving bytes, after one event more. -/
def keep (kept : List WindowResult) : LogEvent → List WindowResult
  | .emit emission => kept ++ [emission.result]
  | .truncate length => fitting frame length kept
  | .reopen => kept

/-- The results whose frames have survived a run. -/
def surviving (events : List LogEvent) : List WindowResult := events.foldl keep []

/-- A log holds the frames of some results, and a torn tail unless it is being written. -/
structure Log.Holds (log : Log) (kept : List WindowResult) (tail : Bytes) : Prop where
  storable : ∀ result ∈ kept, Storable result
  file : log.file = frames kept ++ tail
  torn : Torn frame Storable tail
  repaired : log.writing = true → tail = []

/-- The events of a run have storable results. -/
def StorableEvents (events : List LogEvent) : Prop :=
  ∀ emission, LogEvent.emit emission ∈ events → Storable emission.result

variable {kept : List WindowResult} {tail : Bytes} {log after : Log}

theorem Log.Holds.emit (holds : log.Holds kept tail) {emission : Emission}
    (storable : Storable emission.result) (stepped : log.step (.emit emission) = some after) :
    after.Holds (kept ++ [emission.result]) [] := by
  simp only [Log.step] at stepped
  split at stepped
  next file writing served =>
    cases Option.some.inj stepped
    have whole : emission.written = frame emission.result :=
      written_of_emit (congrArg Prod.fst served)
    have extended := emit_file emission log.file
    rw [served, holds.file, holds.repaired writing, whole] at extended
    refine ⟨?_, ?_, Torn.nil, fun _ => rfl⟩
    · intro result member
      rcases List.mem_append.mp member with earlier | last
      · exact holds.storable result earlier
      · rwa [List.mem_singleton.mp last]
    · simpa using extended
  next => cases stepped

theorem Log.Holds.truncate (holds : log.Holds kept tail) {length : Nat}
    (stepped : log.step (.truncate length) = some after) :
    ∃ rest, after.Holds (fitting frame length kept) rest := by
  cases Option.some.inj stepped
  obtain ⟨rest, cut, torn⟩ := take_log holds.storable holds.torn length
  refine ⟨rest, ?_, ?_, torn, nofun⟩
  · intro result member
    exact holds.storable result ((fitting_le length kept).subset member)
  · rw [← cut, holds.file]

theorem Log.Holds.reopen (holds : log.Holds kept tail) (stepped : log.step .reopen = some after) :
    after.Holds kept [] := by
  have created := create_append holds.storable holds.torn
  rw [← holds.file] at created
  simp only [Log.step, created] at stepped
  cases Option.some.inj stepped
  exact ⟨holds.storable, (List.append_nil _).symm, Torn.nil, fun _ => rfl⟩

/-- Every event leaves a log of the results that it spares. -/
theorem Log.Holds.step (holds : log.Holds kept tail) {event : LogEvent}
    (storable : StorableEvents [event]) (stepped : log.step event = some after) :
    ∃ rest, after.Holds (keep kept event) rest := by
  cases event with
  | emit emission => exact ⟨[], holds.emit (storable emission List.mem_cons_self) stepped⟩
  | truncate length => exact holds.truncate stepped
  | reopen => exact ⟨[], holds.reopen stepped⟩

/-- Every run does. -/
theorem Log.Holds.run {log final : Log} (holds : log.Holds kept tail) {events : List LogEvent}
    (storable : StorableEvents events) (ran : events.foldlM Log.step log = some final) :
    ∃ rest, final.Holds (events.foldl keep kept) rest := by
  induction events generalizing log kept tail with
  | nil =>
    cases Option.some.inj ran
    exact ⟨tail, holds⟩
  | cons event events inductionHypothesis =>
    rw [List.foldlM_cons] at ran
    obtain ⟨next, stepped, rest⟩ := Option.bind_eq_some_iff.mp ran
    obtain ⟨tail, after⟩ := holds.step
      (fun emission member => storable emission (by simp_all)) stepped
    exact inductionHypothesis after
      (fun emission member => storable emission (List.mem_cons_of_mem _ member)) rest

theorem Log.Holds.start : Log.Holds {} [] [] :=
  ⟨fun _ member => absurd member List.not_mem_nil, rfl, Torn.nil, fun _ => rfl⟩

theorem Log.Holds.reads {log : Log} (holds : log.Holds kept tail) : readAll log.file = kept := by
  rw [readAll, holds.file, parseRecords_log holds.storable holds.torn]

/-- Emissions after a reopening add their results behind the surviving ones. -/
theorem surviving_append (events : List LogEvent) (later : List Emission) :
    surviving (events ++ .reopen :: later.map .emit) =
      surviving events ++ later.map Emission.result := by
  have emitted (kept : List WindowResult) :
      (later.map LogEvent.emit).foldl keep kept = kept ++ later.map Emission.result := by
    induction later generalizing kept with
    | nil => simp
    | cons emission later inductionHypothesis => simp [keep, inductionHypothesis]
  rw [surviving, List.foldl_append, List.foldl_cons, emitted]
  rfl

/-- After any run `ReadAll` returns the results whose frames lie entirely inside the
surviving bytes. Opening the log for appending removes the incomplete frame behind them and
nothing else, and what is emitted then is read back after them. -/
theorem repaired_logs_read_back (events : List LogEvent) (storable : StorableEvents events)
    (log : Log) (ran : events.foldlM Log.step {} = some log) :
    readAll log.file = surviving events ∧
      (∃ tail, log.file = frames (surviving events) ++ tail ∧ Torn frame Storable tail ∧
        create .append {} log.file = (.ok (), frames (surviving events))) ∧
      ∀ (later : List Emission) (after : Log), (∀ emission ∈ later, Storable emission.result) →
        (LogEvent.reopen :: later.map .emit).foldlM Log.step log = some after →
          readAll after.file = surviving events ++ later.map Emission.result := by
  obtain ⟨tail, holds⟩ := Log.Holds.start.run storable ran
  refine ⟨holds.reads, ⟨tail, holds.file, holds.torn, ?_⟩, ?_⟩
  · rw [holds.file]
    exact create_append holds.storable holds.torn
  · intro later after storableLater continued
    have whole :
        (events ++ LogEvent.reopen :: later.map .emit).foldlM Log.step {} = some after := by
      rw [List.foldlM_append, ran]
      exact continued
    have storableAll : StorableEvents (events ++ .reopen :: later.map .emit) := by
      intro emission member
      rcases List.mem_append.mp member with early | late
      · exact storable emission early
      · apply storableLater
        simpa using late
    obtain ⟨rest, final⟩ := Log.Holds.start.run storableAll whole
    rw [← surviving_append]
    exact final.reads

/-- A result with a key of one byte. -/
def sampleResult (letter : UInt8) : WindowResult where
  key := [letter]
  window := { start := .ofMs 0, close := .ofMs 10 }
  result := { value := 5, count := 1 }

theorem sampleResult_storable (letter : UInt8) : Storable (sampleResult letter) :=
  ⟨⟨by simp [sampleResult], by simp [sampleResult]⟩, by simp [sampleResult], by simp [sampleResult]⟩

/-- An emission that the system serves. -/
def served (result : WindowResult) : Emission := ⟨result, [.wrote (frame result).length], true⟩

/-- A run in which the second frame is cut after three bytes and the log is reopened. -/
def cutRun : List LogEvent :=
  [.emit (served (sampleResult 97)), .emit (served (sampleResult 98)), .truncate 40, .reopen,
    .emit (served (sampleResult 99))]

theorem cutRun_reads_back :
    ∃ log, cutRun.foldlM Log.step {} = some log ∧
      readAll log.file = [sampleResult 97, sampleResult 99] := by
  have ran : cutRun.foldlM Log.step {} =
      some { file := frames [sampleResult 97, sampleResult 99], writing := true } := by
    decide +kernel
  have storable : StorableEvents cutRun := by
    intro emission member
    simp only [cutRun, List.mem_cons, LogEvent.emit.injEq, reduceCtorEq, List.not_mem_nil, or_false,
      false_or] at member
    rcases member with rfl | rfl | rfl <;> exact sampleResult_storable _
  have kept : surviving cutRun = [sampleResult 97, sampleResult 99] := by decide +kernel
  exact ⟨_, ran, (repaired_logs_read_back cutRun storable _ ran).1.trans kept⟩

/-! ## Calls that throw -/

/-- Calls of `Emit` one after the other on one sink: the results of those that return, and
the file after them. -/
def emitAll (file : Bytes) : List Emission → List WindowResult × Bytes
  | [] => ([], file)
  | emission :: rest =>
    let (outcome, next) := emit emission file
    let (returned, final) := emitAll next rest
    match outcome with
    | .ok () => (emission.result :: returned, final)
    | .error _ => (returned, final)

/-- Nothing of a log is lost or made up: the results that the log had and those whose calls
returned are read back in order, and nothing is read back that is not one of the log or was
passed to a call. -/
def Uncorrupted (earlier : List WindowResult) (emissions : List Emission) : Prop :=
  (earlier ++ (emitAll (frames earlier) emissions).1).Sublist
      (readAll (emitAll (frames earlier) emissions).2) ∧
    ∀ result ∈ readAll (emitAll (frames earlier) emissions).2,
      result ∈ earlier ++ emissions.map Emission.result

/-- Every call of which the system takes a byte finds a file that ends with a frame, as
`ParseRecords` sees it. -/
def Unbroken (file : Bytes) : List Emission → Prop
  | [] => True
  | emission :: rest =>
    (emission.written = [] ∨ (parseRecords file).2 = file.length) ∧
      Unbroken (emit emission file).2 rest

/-- The results whose frames have been written entirely. -/
def landed (emissions : List Emission) : List WindowResult :=
  (emissions.filter fun emission => emission.written = frame emission.result).map Emission.result

/-- A file that ends with a frame has no torn tail. -/
theorem tail_nil_of_whole (storable : ∀ result ∈ kept, Storable result)
    (torn : Torn frame Storable tail)
    (whole : (parseRecords (frames kept ++ tail)).2 = (frames kept ++ tail).length) :
    tail = [] := by
  rw [parseRecords_log storable torn, List.length_append] at whole
  exact List.length_eq_zero_iff.mp (by omega)

/-- What a call leaves behind the frames of a log whose end it respects: its frame, or a
tail. -/
theorem emit_unbroken {emission : Emission} (storable : ∀ result ∈ kept, Storable result)
    (torn : Torn frame Storable tail) (fits : Storable emission.result)
    (unbroken : emission.written = [] ∨
      (parseRecords (frames kept ++ tail)).2 = (frames kept ++ tail).length) :
    ∃ rest, (emit emission (frames kept ++ tail)).2 =
      frames (kept ++ landed [emission]) ++ rest ∧ Torn frame Storable rest := by
  rw [emit_file]
  by_cases complete : emission.written = frame emission.result
  · have nonempty : emission.written ≠ [] := by
      intro empty
      have long := frame_nonempty emission.result
      rw [← complete, empty] at long
      exact absurd long (lt_irrefl 0)
    have bare := tail_nil_of_whole storable torn (unbroken.resolve_left nonempty)
    refine ⟨[], ?_, Torn.nil⟩
    simp [landed, complete, bare]
  · have nothing : landed [emission] = [] := by simp [landed, complete]
    rw [nothing, List.append_nil, List.append_assoc]
    refine ⟨_, rfl, ?_⟩
    rcases unbroken with silent | whole
    · rwa [silent, List.append_nil]
    · rw [tail_nil_of_whole storable torn whole, List.nil_append]
      have starts := emission.written_le_frame
      exact Or.inr ⟨emission.result, fits, starts,
        lt_of_le_of_ne starts.length_le fun same => complete (starts.eq_of_length same)⟩

/-- Calls that respect the end of the log leave the frames they complete and a tail. -/
theorem emitAll_unbroken {emissions : List Emission} (storable : ∀ result ∈ kept, Storable result)
    (torn : Torn frame Storable tail) (fits : ∀ emission ∈ emissions, Storable emission.result)
    (unbroken : Unbroken (frames kept ++ tail) emissions) :
    ∃ rest, (emitAll (frames kept ++ tail) emissions).2 =
      frames (kept ++ landed emissions) ++ rest ∧ Torn frame Storable rest := by
  induction emissions generalizing kept tail with
  | nil => exact ⟨tail, by simp [emitAll, landed], torn⟩
  | cons emission rest inductionHypothesis =>
    have fitsHere := fits emission List.mem_cons_self
    obtain ⟨left, after, tornLeft⟩ := emit_unbroken storable torn fitsHere unbroken.1
    have remaining := unbroken.2
    rw [after] at remaining
    have storableNext : ∀ result ∈ kept ++ landed [emission], Storable result := by
      intro result member
      rcases List.mem_append.mp member with early | late
      · exact storable result early
      · have same : result = emission.result := by
          by_cases complete : emission.written = frame emission.result <;>
            simp_all [landed]
        rwa [same]
    obtain ⟨final, ends, tornFinal⟩ := inductionHypothesis storableNext tornLeft
      (fun other member => fits other (List.mem_cons_of_mem _ member)) remaining
    refine ⟨final, ?_, tornFinal⟩
    have file : (emitAll (frames kept ++ tail) (emission :: rest)).2 =
        (emitAll (emit emission (frames kept ++ tail)).2 rest).2 := by
      simp only [emitAll]
      split <;> rfl
    have split : landed (emission :: rest) = landed [emission] ++ landed rest := by
      simp [landed, ← List.map_append, ← List.filter_append]
    rw [file, after, ends, split, List.append_assoc]

/-- The calls that return have completed their frames. -/
theorem returned_sublist (file : Bytes) (emissions : List Emission) :
    (emitAll file emissions).1.Sublist (landed emissions) := by
  induction emissions generalizing file with
  | nil => exact List.Sublist.refl _
  | cons emission rest inductionHypothesis =>
    have later := inductionHypothesis (emit emission file).2
    have split : landed (emission :: rest) = landed [emission] ++ landed rest := by
      simp [landed, ← List.map_append, ← List.filter_append]
    rw [split]
    simp only [emitAll]
    split
    next returned =>
      have here : landed [emission] = [emission.result] := by
        simp [landed, written_of_emit returned]
      rw [here]
      exact later.cons_cons emission.result
    next => exact later.trans (List.sublist_append_right _ _)

theorem landed_subset {emissions : List Emission} {result : WindowResult}
    (member : result ∈ landed emissions) : result ∈ emissions.map Emission.result := by
  obtain ⟨emission, present, rfl⟩ := List.mem_map.mp member
  exact List.mem_map_of_mem (List.mem_filter.mp present).1

/-- A result that is not read back behind part of a frame. Its length field is `1`, and no
other byte of its frame is. -/
def probe : WindowResult where
  key := [2]
  window := { start := .ofMs 0, close := .ofMs 0 }
  result := { value := 0, count := 0 }

theorem probe_storable : Storable probe :=
  ⟨⟨by simp [probe], by simp [probe]⟩, by simp [probe], by simp [probe]⟩

theorem frame_probe : frame probe = [1, 0, 0, 0, 2] ++ List.replicate 32 0 := by decide +kernel

/-- Behind one to three bytes of a frame the length field of the probe is read as a larger
one. -/
theorem parseRecord_short (nonempty : tail ≠ []) (short : tail.length < 4) :
    parseRecord (tail ++ frame probe) = none := by
  have length : (tail ++ frame probe).length = tail.length + 37 := by
    rw [List.length_append, length_frame]
    rfl
  have large : 256 ≤ decode ((tail ++ frame probe).take 4) := by
    rw [frame_probe]
    match tail, nonempty, short with
    | [first], _, _ => simp [decode]
    | [first, second], _, _ => simp [decode]; omega
    | [first, second, third], _, _ => simp [decode]; omega
  unfold parseRecord
  rw [if_neg (by omega)]
  exact if_pos (by omega)

/-- Behind part of a frame the probe is not what the parser reads. -/
theorem parseRecord_probe (torn : Torn frame Storable tail) (nonempty : tail ≠ []) (size : Nat) :
    parseRecord (tail ++ frame probe) ≠ some (probe, size) := by
  intro parsed
  by_cases short : tail.length < 4
  · rw [parseRecord_short nonempty short] at parsed
    cases parsed
  · -- The first byte of the probe stands where its own frame has another byte.
    have inside : tail.length < size := by
      rw [size_of_parseRecord parsed]
      exact decode_take_torn torn (by omega) _
    have displaced : (frame probe)[tail.length]? = some 1 := by
      rw [frame_of_parseRecord parsed, List.getElem?_take_of_lt inside,
        List.getElem?_append_right le_rfl, Nat.sub_self, frame_probe]
      rfl
    have elsewhere : ∀ position < 37, 4 ≤ position →
        ([1, 0, 0, 0, 2] ++ List.replicate 32 0 : Bytes)[position]? ≠ some 1 := by
      decide
    have bound := (List.getElem?_eq_some_iff.mp displaced).1
    rw [length_frame] at bound
    rw [frame_probe] at displaced
    exact elsewhere tail.length bound (by omega) displaced

/-- Behind part of a frame the probe is not read back. -/
theorem probe_unread (storable : ∀ result ∈ kept, Storable result) (torn : Torn frame Storable tail)
    (nonempty : tail ≠ []) :
    readAll ((frames kept ++ tail) ++ frame probe) ≠ kept ++ [probe] := by
  intro read
  have bound : kept.length ≤ (frames kept).length := length_le_log frame_nonempty
  obtain ⟨spare, length⟩ : ∃ spare, (frames kept ++ (tail ++ frame probe)).length =
      kept.length + spare :=
    Nat.exists_eq_add_of_le (by rw [List.length_append]; omega)
  rw [List.append_assoc, readAll, parseRecords, length,
    scan_append parseRecord_frame storable] at read
  have last : (scan parseRecord spare (tail ++ frame probe)).1 = [probe] :=
    List.append_cancel_left read
  cases spare with
  | zero => cases last
  | succ spare =>
    rw [scan] at last
    cases parsed : parseRecord (tail ++ frame probe) with
    | none => simp [parsed] at last
    | some found =>
      obtain ⟨item, size⟩ := found
      simp only [parsed, List.cons.injEq] at last
      rw [last.1] at parsed
      exact parseRecord_probe torn nonempty size parsed

/-- Behind whole frames every result is read back. -/
theorem readAll_snoc (storable : ∀ result ∈ kept, Storable result) {next : WindowResult}
    (fits : Storable next) :
    readAll (frames kept ++ frame next) = kept ++ [next] := by
  have appended : frames kept ++ frame next = frames (kept ++ [next]) ++ [] := by simp
  rw [appended, readAll, parseRecords_log _ Torn.nil]
  intro result member
  rcases List.mem_append.mp member with early | late
  · exact storable result early
  · rwa [List.mem_singleton.mp late]

/-- Calls none of which writes behind part of a frame leave an intact log, whichever of them
throw. From the file that they leave, every further result is read back just when the file
ends with a frame. -/
theorem unbroken_calls_uncorrupted (earlier : List WindowResult)
    (stored : ∀ result ∈ earlier, Storable result) (emissions : List Emission)
    (fits : ∀ emission ∈ emissions, Storable emission.result)
    (unbroken : Unbroken (frames earlier) emissions) :
    Uncorrupted earlier emissions ∧
      ((∀ next, Storable next →
          readAll ((emitAll (frames earlier) emissions).2 ++ frame next) =
            readAll (emitAll (frames earlier) emissions).2 ++ [next]) ↔
        (parseRecords (emitAll (frames earlier) emissions).2).2 =
          (emitAll (frames earlier) emissions).2.length) := by
  have unbrokenHere : Unbroken (frames earlier ++ []) emissions := by rwa [List.append_nil]
  obtain ⟨tail, file, torn⟩ := emitAll_unbroken stored Torn.nil fits unbrokenHere
  rw [List.append_nil] at file
  have storable : ∀ result ∈ earlier ++ landed emissions, Storable result := by
    intro result member
    rcases List.mem_append.mp member with early | late
    · exact stored result early
    · obtain ⟨emission, present, rfl⟩ := List.mem_map.mp (landed_subset late)
      exact fits emission present
  have read : readAll (emitAll (frames earlier) emissions).2 = earlier ++ landed emissions := by
    rw [file, readAll, parseRecords_log storable torn]
  refine ⟨⟨?_, ?_⟩, ?_, ?_⟩
  · rw [read]
    exact (List.Sublist.refl earlier).append (returned_sublist _ emissions)
  · intro result member
    rw [read] at member
    rcases List.mem_append.mp member with early | late
    · exact List.mem_append_left _ early
    · exact List.mem_append_right _ (landed_subset late)
  · intro everyNext
    have probed := everyNext probe probe_storable
    rw [read, file] at probed
    have bare : tail = [] := by
      by_contra nonempty
      exact probe_unread storable torn nonempty probed
    rw [file, bare, parseRecords_log storable Torn.nil, List.append_nil]
  · intro whole next fitsNext
    rw [file] at whole
    rw [read, file, tail_nil_of_whole storable torn whole, List.append_nil,
      readAll_snoc storable fitsNext]

/-- A call that the system stops after ten bytes. -/
def stopped (result : WindowResult) : Emission := ⟨result, [.wrote 10, .interrupted, .failed], true⟩

/-- The last call may fail in the middle. -/
theorem stopped_last_uncorrupted :
    Uncorrupted [sampleResult 97] [served (sampleResult 98), stopped (sampleResult 99)] := by
  refine (unbroken_calls_uncorrupted [sampleResult 97] ?_
    [served (sampleResult 98), stopped (sampleResult 99)] ?_ ?_).1
  · intro result member
    rw [List.mem_singleton.mp member]
    exact sampleResult_storable 97
  · intro emission member
    rcases List.mem_pair.mp member with rfl | rfl <;> exact sampleResult_storable _
  · exact ⟨Or.inr (by decide +kernel), Or.inr (by decide +kernel), trivial⟩

/-- A call after one that failed in the middle returns, and yet its result is not read back:
what is read back is made of the bytes of both. -/
theorem stopped_first_corrupts :
    (emitAll [] [stopped (sampleResult 97), served (sampleResult 98)]).1 = [sampleResult 98] ∧
      sampleResult 98 ∉
        readAll (emitAll [] [stopped (sampleResult 97), served (sampleResult 98)]).2 ∧
      ¬ Uncorrupted [] [stopped (sampleResult 97), served (sampleResult 98)] := by
  have returned : (emitAll [] [stopped (sampleResult 97), served (sampleResult 98)]).1 =
      [sampleResult 98] := by decide +kernel
  have lost : sampleResult 98 ∉
      readAll (emitAll [] [stopped (sampleResult 97), served (sampleResult 98)]).2 := by
    decide +kernel
  refine ⟨returned, lost, ?_⟩
  rintro ⟨kept, _⟩
  apply lost
  apply kept.subset
  rw [List.nil_append]
  change sampleResult 98 ∈ (emitAll [] _).1
  rw [returned]
  exact List.mem_cons_self

end Stormglass.DurableFileSink
