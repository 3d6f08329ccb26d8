import Stormglass.GeneratorReplay
import Stormglass.MergeSource
import Stormglass.PartitionDirectories

/-!
# Reading descriptors back

A restore compares descriptors as texts. A descriptor is a sequence of named fields, and each
field ends where a character follows that it cannot contain. Two equal descriptors therefore
have equal fields: generators with the same descriptor differ at most in the length and the
grouping of their streams, and merges with the same descriptor have as many channels, with
such generators and the same idle spans.
-/

namespace Stormglass

/-- A text that does not continue a field of the allowed characters. -/
def Stops (allowed : UInt8 → Bool) (text : Bytes) : Prop :=
  ∀ byte ∈ text.head?, allowed byte = false

/-- Fields of allowed characters are separated by what follows them. -/
theorem Stops.split {allowed : UInt8 → Bool} {first second rest others : Bytes}
    (within : first.all allowed = true) (inside : second.all allowed = true)
    (stops : Stops allowed rest) (ends : Stops allowed others)
    (same : first ++ rest = second ++ others) : first = second ∧ rest = others := by
  have field {text tail : Bytes} (all : text.all allowed = true) (stops : Stops allowed tail) :
      (text ++ tail).takeWhile allowed = text := by
    have nothing : tail.takeWhile allowed = [] := by
      cases tail with
      | nil => rfl
      | cons byte tail => exact List.takeWhile_cons_of_neg (by simp [stops byte rfl])
    rw [List.takeWhile_append_of_pos (List.all_eq_true.mp all), nothing, List.append_nil]
  have equal : first = second := by
    rw [← field within stops, same, field inside ends]
  exact ⟨equal, List.append_cancel_left (equal ▸ same)⟩

theorem Stops.literal {allowed : UInt8 → Bool} {name : String} {byte : UInt8} {tail : Bytes}
    (shape : ascii name.toList = byte :: tail) (refused : allowed byte = false) (rest : Bytes) :
    Stops allowed (ascii name.toList ++ rest) := by
  intro found head
  rw [shape] at head
  cases Option.mem_some.mp head
  exact refused

theorem decimalValue_toDecimal (value : Nat) : decimalValue (toDecimal value) = value := by
  rw [toDecimal, decimalValue_decimalDigits]
  exact Nat.mod_eq_of_lt (Nat.lt_pow_succ_log_self (by decide) value)

theorem toDecimal_injective : Function.Injective toDecimal := by
  intro first second same
  rw [← decimalValue_toDecimal first, same, decimalValue_toDecimal]

theorem all_isDigit_toDecimal (value : Nat) : (toDecimal value).all isDigit = true :=
  all_isDigit_decimalDigits _ value

/-- A number is read up to the next character that is not a digit. -/
theorem toDecimal_split {first second : Nat} {rest others : Bytes} (stops : Stops isDigit rest)
    (ends : Stops isDigit others) (same : toDecimal first ++ rest = toDecimal second ++ others) :
    first = second ∧ rest = others := by
  obtain ⟨equal, following⟩ :=
    Stops.split (all_isDigit_toDecimal first) (all_isDigit_toDecimal second)
    stops ends same
  exact ⟨toDecimal_injective equal, following⟩

/-- The characters of a signed number. -/
def isSigned (byte : UInt8) : Bool := isDigit byte || byte == 45

theorem signedText_injective : Function.Injective DeterministicGenerator.signedText := by
  have noSign (value : Nat) (rest : Bytes) : toDecimal value ≠ ascii ['-'] ++ rest := by
    intro same
    have digits := all_isDigit_toDecimal value
    rw [same] at digits
    simp [ascii, isDigit] at digits
  intro first second same
  unfold DeterministicGenerator.signedText at same
  split at same <;> split at same
  · have magnitude := toDecimal_injective (List.append_cancel_left same)
    omega
  · exact absurd same.symm (noSign _ _)
  · exact absurd same (noSign _ _)
  · have magnitude := toDecimal_injective same
    omega

theorem all_isSigned_signedText (value : Int) :
    (DeterministicGenerator.signedText value).all isSigned = true := by
  have digits (number : Nat) : (toDecimal number).all isSigned = true := by
    rw [List.all_eq_true]
    intro byte member
    simp [isSigned, List.all_eq_true.mp (all_isDigit_toDecimal number) byte member]
  unfold DeterministicGenerator.signedText
  split
  · rw [List.all_append, digits]
    rfl
  · exact digits _

theorem signedText_split {first second : Int} {rest others : Bytes} (stops : Stops isSigned rest)
    (ends : Stops isSigned others)
    (same : DeterministicGenerator.signedText first ++ rest =
      DeterministicGenerator.signedText second ++ others) : first = second ∧ rest = others := by
  obtain ⟨equal, following⟩ := Stops.split (all_isSigned_signedText first)
    (all_isSigned_signedText second) stops ends same
  exact ⟨signedText_injective equal, following⟩

/-- The output of a `double` with 17 digits determines it, and it holds no comma. The
predicate says which numbers are such values. -/
structure PlainDoubles (ε : Type) [RandomEngine ε] (double : Rat → Prop) : Prop where
  distinct : ∀ first second, double first → double second →
    @RandomEngine.doubleText ε _ first = @RandomEngine.doubleText ε _ second → first = second
  plain : ∀ value, double value → ∀ byte ∈ @RandomEngine.doubleText ε _ value, byte ≠ 44

namespace DeterministicGenerator

variable {ε : Type} [RandomEngine ε]

/-- The end of a descriptor, which a heavy-tailed disorder extends. -/
def tailText (config : GeneratorConfig) (rest : Bytes) : Bytes :=
  match config.disorderMode with
  | .bounded => 41 :: rest
  | .heavyTailed =>
    ascii ",late_fraction=".toList ++ (@RandomEngine.doubleText ε _ config.lateFraction ++
      (ascii ",late_tail_ms=".toList ++ (signedText config.lateTail ++ 41 :: rest)))

/-- A descriptor as a sequence of fields. -/
theorem descriptor_append (generator : DeterministicGenerator ε) (rest : Bytes) :
    generator.descriptor ++ rest =
      ascii "generator(seed=".toList ++ (toDecimal generator.config.seed ++
      (ascii ",keys=".toList ++ (toDecimal generator.config.numKeys ++
      (ascii ",step_ms=".toList ++ (signedText generator.config.eventTimeStep ++
      (ascii ",disorder_ms=".toList ++ (signedText generator.config.maxDisorder ++
      (ascii ",watermark_interval=".toList ++ (toDecimal generator.config.watermarkInterval ++
      (ascii ",checkpoint_interval=".toList ++ (toDecimal generator.config.checkpointInterval ++
      (ascii ",disorder_mode=".toList ++
        (toDecimal (match generator.config.disorderMode with | .bounded => 0 | .heavyTailed => 1) ++
          tailText (ε := ε) generator.config rest))))))))))))) := by
  unfold descriptor tailText
  cases mode : generator.config.disorderMode <;> simp [mode, ascii]

theorem stops_tailText (config : GeneratorConfig) (rest : Bytes) :
    Stops isDigit (tailText (ε := ε) config rest) := by
  unfold tailText
  cases config.disorderMode with
  | bounded =>
    intro byte head
    cases Option.mem_some.mp head
    rfl
  | heavyTailed => exact .literal rfl rfl _

/-- Equal descriptors come from similar configurations, and what follows them is equal. -/
theorem descriptor_split {double : Rat → Prop} (doubles : PlainDoubles ε double)
    {first second : DeterministicGenerator ε} (real : double first.config.lateFraction)
    (alsoReal : double second.config.lateFraction) {rest others : Bytes}
    (same : first.descriptor ++ rest = second.descriptor ++ others) :
    first.config.Similar second.config ∧ rest = others := by
  rw [descriptor_append, descriptor_append] at same
  obtain ⟨seed, same⟩ := toDecimal_split (.literal rfl rfl _) (.literal rfl rfl _)
    (List.append_cancel_left same)
  obtain ⟨keys, same⟩ := toDecimal_split (.literal rfl rfl _) (.literal rfl rfl _)
    (List.append_cancel_left same)
  obtain ⟨step, same⟩ := signedText_split (.literal rfl rfl _) (.literal rfl rfl _)
    (List.append_cancel_left same)
  obtain ⟨disorder, same⟩ := signedText_split (.literal rfl rfl _) (.literal rfl rfl _)
    (List.append_cancel_left same)
  obtain ⟨watermarks, same⟩ := toDecimal_split (.literal rfl rfl _) (.literal rfl rfl _)
    (List.append_cancel_left same)
  obtain ⟨checkpoints, same⟩ := toDecimal_split (.literal rfl rfl _) (.literal rfl rfl _)
    (List.append_cancel_left same)
  obtain ⟨number, same⟩ := toDecimal_split (stops_tailText _ _) (stops_tailText _ _)
    (List.append_cancel_left same)
  have mode : first.config.disorderMode = second.config.disorderMode := by
    cases one : first.config.disorderMode <;> cases other : second.config.disorderMode <;>
      simp [one, other] at number ⊢
  unfold tailText at same
  rw [← mode] at same
  cases kind : first.config.disorderMode with
  | bounded =>
    rw [kind] at same
    refine ⟨⟨seed, keys, step, disorder, watermarks, checkpoints, mode, ?_⟩,
      List.tail_eq_of_cons_eq same⟩
    intro heavy
    rw [kind] at heavy
    cases heavy
  | heavyTailed =>
    rw [kind] at same
    have noComma {value : Rat} (real : double value) :
        (@RandomEngine.doubleText ε _ value).all (· ≠ 44) = true := by
      simpa [List.all_eq_true] using doubles.plain value real
    obtain ⟨fraction, same⟩ := Stops.split (noComma real) (noComma alsoReal) (.literal rfl rfl _)
      (.literal rfl rfl _) (List.append_cancel_left same)
    obtain ⟨length, same⟩ :=
      signedText_split (fun byte head => by cases Option.mem_some.mp head; rfl)
      (fun byte head => by cases Option.mem_some.mp head; rfl) (List.append_cancel_left same)
    refine ⟨⟨seed, keys, step, disorder, watermarks, checkpoints, mode, fun _ => ⟨?_, length⟩⟩,
      List.tail_eq_of_cons_eq same⟩
    exact doubles.distinct _ _ real alsoReal fraction

theorem descriptor_ne_nil (generator : DeterministicGenerator ε) : generator.descriptor ≠ [] := by
  have shape := descriptor_append generator []
  rw [List.append_nil] at shape
  rw [shape]
  exact List.append_ne_nil_of_left_ne_nil (by simp [ascii]) _

end DeterministicGenerator

namespace SourceMerge

variable {ε : Type} [RandomEngine ε]

/-- An idle span in a descriptor. -/
def spanText (span : IdleSpan) : Bytes :=
  ascii "@idle(".toList ++ toDecimal span.startOffset ++ ascii ",".toList ++
    toDecimal span.length ++ ascii ")".toList

/-- A channel in a descriptor. -/
def channelText (channel : DeterministicGenerator ε × List IdleSpan) : Bytes :=
  ascii ";".toList ++ channel.1.descriptor ++ channel.2.flatMap spanText

theorem spanText_split {first second : IdleSpan} {rest others : Bytes}
    (same : spanText first ++ rest = spanText second ++ others) :
    first = second ∧ rest = others := by
  unfold spanText at same
  simp only [List.append_assoc] at same
  obtain ⟨start, same⟩ := toDecimal_split (.literal rfl rfl _) (.literal rfl rfl _)
    (List.append_cancel_left same)
  obtain ⟨length, same⟩ := toDecimal_split (.literal rfl rfl _) (.literal rfl rfl _)
    (List.append_cancel_left same)
  refine ⟨?_, List.append_cancel_left same⟩
  cases first
  cases second
  simp_all

/-- The idle spans end where no further one begins. -/
theorem spans_split {first second : List IdleSpan} {rest others : Bytes}
    (stops : rest.head? ≠ some 64) (ends : others.head? ≠ some 64)
    (same : first.flatMap spanText ++ rest = second.flatMap spanText ++ others) :
    first = second ∧ rest = others := by
  have starts (span : IdleSpan) (spans : List IdleSpan) (tail : Bytes) :
      ((span :: spans).flatMap spanText ++ tail).head? = some 64 := by
    simp [spanText, ascii]
  induction first generalizing second with
  | nil =>
    cases second with
    | nil => exact ⟨rfl, same⟩
    | cons span spans =>
      rw [List.flatMap_nil, List.nil_append] at same
      exact absurd (same ▸ starts span spans others) stops
  | cons span spans inductionHypothesis =>
    cases second with
    | nil =>
      rw [List.flatMap_nil, List.nil_append] at same
      exact absurd (same ▸ starts span spans rest) ends
    | cons other more =>
      rw [List.flatMap_cons, List.flatMap_cons, List.append_assoc, List.append_assoc] at same
      obtain ⟨equal, same⟩ := spanText_split same
      obtain ⟨equals, same⟩ := inductionHypothesis same
      exact ⟨congrArg₂ _ equal equals, same⟩

/-- Channels with equal texts. -/
def Resembles (first second : DeterministicGenerator ε × List IdleSpan) : Prop :=
  first.1.config.Similar second.1.config ∧ first.2 = second.2

/-- The channels end at the closing parenthesis. -/
theorem channels_split {double : Rat → Prop} (doubles : PlainDoubles ε double)
    {first second : List (DeterministicGenerator ε × List IdleSpan)}
    (real : ∀ channel ∈ first, double channel.1.config.lateFraction)
    (alsoReal : ∀ channel ∈ second, double channel.1.config.lateFraction)
    (same : first.flatMap channelText ++ ascii ")".toList =
      second.flatMap channelText ++ ascii ")".toList) : List.Forall₂ Resembles first second := by
  have starts (channel : DeterministicGenerator ε × List IdleSpan)
      (channels : List (DeterministicGenerator ε × List IdleSpan)) (tail : Bytes) :
      ((channel :: channels).flatMap channelText ++ tail).head? = some 59 := by
    simp [channelText, ascii]
  have follows (channels : List (DeterministicGenerator ε × List IdleSpan)) :
      (channels.flatMap channelText ++ ascii ")".toList).head? ≠ some 64 := by
    cases channels with
    | nil => simp [ascii]
    | cons channel channels =>
      rw [starts]
      decide
  induction first generalizing second with
  | nil =>
    cases second with
    | nil => exact .nil
    | cons channel channels =>
      have head := starts channel channels (ascii ")".toList)
      rw [← same] at head
      simp [ascii] at head
  | cons channel channels inductionHypothesis =>
    cases second with
    | nil =>
      have head := starts channel channels (ascii ")".toList)
      rw [same] at head
      simp [ascii] at head
    | cons other others =>
      rw [List.flatMap_cons, List.flatMap_cons, channelText, channelText] at same
      simp only [List.append_assoc] at same
      obtain ⟨similar, same⟩ := DeterministicGenerator.descriptor_split doubles
        (real channel List.mem_cons_self) (alsoReal other List.mem_cons_self)
        (List.append_cancel_left same)
      obtain ⟨spans, same⟩ := spans_split (follows channels) (follows others) same
      refine .cons ⟨similar, spans⟩ (inductionHypothesis ?_ ?_ same)
      · exact fun later member => real later (List.mem_cons_of_mem _ member)
      · exact fun later member => alsoReal later (List.mem_cons_of_mem _ member)

/-- The channels of a merge, in order. -/
def channelList {k : Nat} (merge : SourceMerge (DeterministicGenerator ε) k) :
    List (DeterministicGenerator ε × List IdleSpan) :=
  (List.finRange k).map fun channel =>
    ((merge.states channel).source, (merge.states channel).idleSpans)

/-- The descriptor of a merge of generators as a sequence of fields. -/
theorem descriptor_eq {k : Nat} (merge : SourceMerge (DeterministicGenerator ε) k) :
    merge.descriptor = ascii "merge(idle_timeout=".toList ++
      (toDecimal merge.config.idleTimeout ++
        (merge.channelList.flatMap channelText ++ ascii ")".toList)) := by
  have described : ¬ ∃ channel ∈ (List.finRange k).map (fun channel =>
      (Source.descriptor (merge.states channel).source, (merge.states channel).idleSpans)),
        channel.1 = [] := by
    rintro ⟨channel, member, empty⟩
    obtain ⟨index, -, rfl⟩ := List.mem_map.mp member
    exact DeterministicGenerator.descriptor_ne_nil _ empty
  unfold descriptor
  dsimp only
  rw [if_neg described]
  have own (generator : DeterministicGenerator ε) :
      Source.descriptor generator = generator.descriptor := rfl
  have spans : spanText = fun span => ascii "@idle(".toList ++ (toDecimal span.startOffset ++
      (ascii ",".toList ++ (toDecimal span.length ++ ascii ")".toList))) := by
    funext span
    simp only [spanText, List.append_assoc]
  simp only [channelList, channelText, spans, List.flatMap_map, List.append_assoc, own]

/-- Merges of generators with equal descriptors have the same idle timeout and resembling
channels. -/
theorem descriptor_resembles {double : Rat → Prop} (doubles : PlainDoubles ε double) {k l : Nat}
    {first : SourceMerge (DeterministicGenerator ε) k}
    {second : SourceMerge (DeterministicGenerator ε) l}
    (real : ∀ channel, double (first.states channel).source.config.lateFraction)
    (alsoReal : ∀ channel, double (second.states channel).source.config.lateFraction)
    (same : first.descriptor = second.descriptor) :
    first.config.idleTimeout = second.config.idleTimeout ∧
      List.Forall₂ Resembles first.channelList second.channelList := by
  have stops {n : Nat} (merge : SourceMerge (DeterministicGenerator ε) n) :
      Stops isDigit (merge.channelList.flatMap channelText ++ ascii ")".toList) := by
    cases merge.channelList with
    | nil =>
      intro byte head
      cases Option.mem_some.mp head
      rfl
    | cons channel channels =>
      intro byte head
      simp only [List.flatMap_cons, channelText, List.append_assoc] at head
      cases Option.mem_some.mp head
      rfl
  rw [descriptor_eq, descriptor_eq] at same
  obtain ⟨timeout, same⟩ := toDecimal_split (stops first) (stops second)
    (List.append_cancel_left same)
  refine ⟨timeout, channels_split doubles ?_ ?_ same⟩
  · rintro channel member
    obtain ⟨index, -, rfl⟩ := List.mem_map.mp member
    exact real index
  · rintro channel member
    obtain ⟨index, -, rfl⟩ := List.mem_map.mp member
    exact alsoReal index

end SourceMerge

end Stormglass
