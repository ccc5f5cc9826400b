import Arranger.Proofs.Fallible
import Arranger.Proofs.Render.Operations

/-!
# Strict renderings

What is noted of a rendering says something of it only if the rendering does no other operations. So
here it is once more, with every operation that is not defined for all values in a form without a
result where it is not defined. A strict rendering stops there. Where all operations that are noted
are defined, it goes through and gives what the rendering gives.

## Main definitions

* `Arranger.Operation.subtract?`, `shift?`, `draw?`, `cut?`, `chunk?`, `clamp?` — the operations.
* `Arranger.Stage.strictPlan`, `Arranger.Plan.strictPerform` — strict planning and performing.
* `Arranger.strictRender` — strict rendering.

## Main results

* `Arranger.Stage.strictPlan_eq`, `Arranger.Plan.strictPerform_eq` — where what is noted is defined,
  strict planning is planning and strict performing is performing.
* `Arranger.strictRender_eq` — so is strict rendering.
-/

namespace Arranger

/-! ## Operations -/

/-- A list in chunks of one more than `size` members, of which the last may be shorter. -/
def chunksOf {α : Type} (size : ℕ) : List α → List (List α)
  | [] => []
  | x :: xs => (x :: xs.take size) :: chunksOf size (xs.drop size)
termination_by xs => xs.length
decreasing_by
  rw [List.length_drop, List.length_cons]
  omega

namespace Operation

/-- What is left of a total when an amount is taken from it. -/
def subtract? (total amount : ℕ) : Option ℕ :=
  if amount ≤ total then some (total - amount) else none

/-- A one among `width` bits, shifted by `places`. -/
def shift? (places width : ℕ) : Option ℕ :=
  if places < width then some (2 ^ places) else none

/-- What was chosen among `choices` numbers. -/
def draw? {α : Type} (choices : ℕ) (chosen : α) : Option α :=
  if 0 < choices then some chosen else none

/-- The members of a list from `start` up to `stop`. -/
def cut? {α : Type} (start stop : ℕ) (xs : List α) : Option (List α) :=
  if start ≤ stop ∧ stop ≤ xs.length then some ((xs.drop start).take (stop - start)) else none

/-- A list in chunks of `size` members. -/
def chunk? {α : Type} (size : ℕ) (xs : List α) : Option (List (List α)) :=
  match size with
  | 0 => none
  | size + 1 => some (chunksOf size xs)

/-- A number kept between `low` and `high`. -/
def clamp? {format : Format} (low high x : Binary format) : Option (Binary format) :=
  if low ≤ high then some (if x < low then low else if high < x then high else x) else none

/-- An amount that is no larger than the total is taken from it. -/
lemma subtract?_eq {total amount : ℕ} (h : (subtract total amount).Defined) :
    subtract? total amount = some (total - amount) :=
  if_pos h

/-- A one is shifted by less than the width. -/
lemma shift?_eq {places width : ℕ} (h : (shift places width).Defined) :
    shift? places width = some (2 ^ places) :=
  if_pos h

/-- One of some choices is chosen. -/
lemma draw?_eq {α : Type} {choices : ℕ} (h : (draw choices).Defined) (chosen : α) :
    draw? choices chosen = some chosen :=
  if_pos h

/-- A range that a list has is cut out of it. -/
lemma cut?_eq {α : Type} {start stop : ℕ} {xs : List α} (h : (cut start stop xs.length).Defined) :
    cut? start stop xs = some ((xs.drop start).take (stop - start)) :=
  if_pos h

/-- A number is kept between bounds that are the right way round. -/
lemma clamp?_eq {format : Format} {low high : Binary format} (h : (clamp low high).Defined)
    (x : Binary format) :
    clamp? low high x = some (if x < low then low else if high < x then high else x) :=
  if_pos h

end Operation

/-! ## Strict planning -/

section References

variable (place : Place) (beatCount : ℕ) (stream : Stream)

/-- The beat number that a reference stands for, where there is a choice for a random one. -/
def BeatRef.strictResolve : BeatRef → Option (Except Fault Double × Stream)
  | random low high step =>
    match choices? low high step with
    | none => some (.error (.beatOutOfRange high beatCount), stream)
    | some choices => do
      let (chosen, stream) ← Operation.draw? choices (stream.drawLong choices)
      return (.ok (low + Binary.ofNat chosen * step + place.offset), stream)
  | ref => some (ref.resolve place beatCount stream)

variable {place beatCount stream}

/-- Where there is a choice, a reference is resolved strictly. -/
lemma BeatRef.strictResolve_eq {ref : BeatRef}
    (h : ∀ operation ∈ ref.operations, operation.Defined) :
    ref.strictResolve place beatCount stream = some (ref.resolve place beatCount stream) := by
  cases ref with
  | literal number => rfl
  | position offset => rfl
  | random low high step =>
    rw [operations] at h
    rw [strictResolve, resolve]
    cases hchoices : choices? low high step with
    | none => rfl
    | some choices =>
      rw [hchoices, List.forall_mem_singleton] at h
      dsimp only
      rw [Operation.draw?_eq h]
      rfl

end References

namespace Beatmap

/-- The frame nearest to the position of a coordinate that is kept within the map. -/
def strictNearestFrame (map : Beatmap) (coordinate : Double) : Option ℕ := do
  let inside ← Operation.clamp? 0 (Binary.ofNat map.beatCount) coordinate
  return (map.extrapolate inside).roundAway.toWord

/-- The frames of a beat. -/
def strictWindow (map : Beatmap) (beat : Double) : Option (Option (ℕ × ℕ)) :=
  if map.containsBeat beat then do
    let start ← map.strictNearestFrame (beat - 1)
    let stop ← map.strictNearestFrame beat
    return some (start, max stop start)
  else some none

/-- Where a coordinate can be kept within the map, the frames of a beat are found strictly. -/
lemma strictWindow_eq {map : Beatmap}
    (h : (Operation.clamp (0 : Double) (Binary.ofNat map.beatCount)).Defined) (beat : Double) :
    map.strictWindow beat = some (map.window? beat) := by
  have hframe : ∀ coordinate, map.strictNearestFrame coordinate =
      some (map.nearestFrame coordinate) := by
    intro coordinate
    rw [strictNearestFrame, Operation.clamp?_eq h]
    rfl
  rw [strictWindow, window?, hframe, hframe]
  split_ifs <;> rfl

end Beatmap

/-- The part of a window that a beat keeps. -/
def Beat.strictCut (beat : Beat) (start stop : ℕ) : Option (ℕ × ℕ) := do
  let frames ← Operation.subtract? stop start
  match beat.slice with
  | none => return (start, stop)
  | some (.head fraction) => return (start, start + framesOf fraction frames)
  | some (.tail fraction) => return (← Operation.subtract? stop (framesOf fraction frames), stop)

/-- Where what is noted of a window is defined, a beat keeps its part strictly. -/
lemma Beat.strictCut_eq {beat : Beat} {start stop : ℕ}
    (h : ∀ operation ∈ beat.cutOperations start stop, operation.Defined) :
    beat.strictCut start stop = some (beat.cut start stop) := by
  rw [cutOperations, List.forall_mem_cons, List.forall_mem_append] at h
  obtain ⟨hframes, hslice, -⟩ := h
  rw [strictCut, cut, Operation.subtract?_eq hframes]
  cases hkept : beat.slice with
  | none => rfl
  | some slice =>
    cases slice with
    | head fraction => rfl
    | tail fraction =>
      rw [hkept, List.forall_mem_singleton] at hslice
      simp only [Option.bind_eq_bind, Option.bind_some, Operation.subtract?_eq hslice]
      rfl

/-- The results of `f` on the members of a list, up to the first failure. -/
def strictCollect {α β σ ε : Type} (f : α → σ → Option (Except ε (Option β) × σ)) :
    List α → σ → Option (Except ε (List β) × σ)
  | [], state => some (.ok [], state)
  | x :: xs, state => do
    match ← f x state with
    | (.error error, state) => return (.error error, state)
    | (.ok result, state) =>
      match ← strictCollect f xs state with
      | (.error error, state) => return (.error error, state)
      | (.ok results, state) => return (.ok (result.toList ++ results), state)

/-- **A list is collected strictly** where what is noted on the way is defined, if its members have
their results wherever what is noted of them is. -/
lemma strictCollect_eq {α β σ ε : Type} {f : α → σ → Except ε (Option β) × σ}
    {strict : α → σ → Option (Except ε (Option β) × σ)} {note : α → σ → List Operation}
    (hf : ∀ x state, (∀ operation ∈ note x state, operation.Defined) →
      strict x state = some (f x state)) {xs : List α} {state : σ}
    (h : ∀ operation ∈ collectNotes f note xs state, operation.Defined) :
    strictCollect strict xs state = some (collect f xs state) := by
  induction xs generalizing state with
  | nil => rfl
  | cons x xs ih =>
    rw [collectNotes, List.forall_mem_append] at h
    obtain ⟨hfirst, hrest⟩ := h
    rw [strictCollect, collect, hf x state hfirst]
    cases hx : f x state with
    | mk outcome state' =>
      cases outcome with
      -- Behind a failure nothing is noted and nothing is done.
      | error error => rfl
      | ok result =>
        rw [hx] at hrest
        simp only [Option.bind_eq_bind, Option.bind_some]
        rw [ih hrest]
        rcases collect f xs state' with ⟨_ | results, last⟩ <;> rfl

namespace Stage

/-- What a term plays on a beat of a song. -/
def strictLeafOf (song : Song) (term : Term) (beat : Double) : Option (Except Fault Leaf) := do
  match ← song.beatmap.strictWindow beat with
  | none => return .error (.beatOutOfRange beat song.beatmap.beatCount)
  | some (start, stop) =>
    let (start, stop) ← term.beat.strictCut start stop
    if term.beat.silent then return .ok (.silence (← Operation.subtract? stop start))
    else return .ok (.extract term.source song.recording start stop term.beat.effects)

/-- Where what is noted of a window is defined, a term plays on it strictly. -/
lemma strictLeafOf_eq {song : Song} {term : Term} {beat : Double}
    (h : ∀ operation ∈ term.windowOperations song.beatmap beat, operation.Defined) :
    strictLeafOf song term beat = some (leafOf song term beat) := by
  rw [Term.windowOperations, List.forall_mem_cons] at h
  obtain ⟨hclamp, hcut⟩ := h
  rw [strictLeafOf, leafOf, Beatmap.strictWindow_eq hclamp]
  cases hwindow : song.beatmap.window? beat with
  | none => rfl
  | some window =>
    obtain ⟨start, stop⟩ := window
    rw [hwindow] at hcut
    dsimp only at hcut
    simp only [Option.bind_eq_bind, Option.bind_some, Beat.strictCut_eq hcut]
    cases hsilent : term.beat.silent with
    | false => rfl
    | true =>
      rw [Beat.cutOperations, hsilent, List.forall_mem_cons, List.forall_mem_append, if_pos rfl,
        List.forall_mem_singleton] at hcut
      obtain ⟨-, -, hkept⟩ := hcut
      simp only [Operation.subtract?_eq hkept]
      rfl

variable (stage : Stage)

/-- What a term plays for a beat number of a song. -/
def strictLeafFor (size : ℕ) (song : Song) (term : Term) (requested : Double) :
    Option (Except Fault (Option Leaf)) :=
  match stage.beatFor song.beatmap size requested with
  | .error fault => some (.error fault)
  | .ok none => some (.ok none)
  | .ok (some beat) => do
    let leaf ← strictLeafOf song term beat
    return leaf.map some

/-- What a term plays. -/
def strictPlanTerm (place : Place) (term : Term) (stream : Stream) :
    Option (Except Fault (Option Leaf) × Stream) :=
  match stage.songOf term with
  | .error fault => some (.error fault, stream)
  | .ok song => do
    match ← term.beat.ref.strictResolve place song.beatmap.beatCount stream with
    | (.error fault, stream) => return (.error fault, stream)
    | (.ok requested, stream) =>
      return (← stage.strictLeafFor place.size song term requested, stream)

/-- What a step plays. -/
def strictPlanStep (place : Place) (step : Step) (stream : Stream) :
    Option (Except Fault (Option Plan) × Stream) :=
  match step with
  | .single term => do
    let (leaf, stream) ← stage.strictPlanTerm place term stream
    return (leaf.map (Option.map .single), stream)
  | .mix mode parts => do
    let place := { place with size := countedTerms parts }
    let (leaves, stream) ← strictCollect (stage.strictPlanTerm place) parts stream
    return (leaves.map (mixOf? mode), stream)

/-- What the step of a cue plays, and the cursor behind it. -/
def strictPlanCue (cue : Cue) (cursor : Cursor) : Option (Except Fault (Option Plan) × Cursor) := do
  match ← stage.strictPlanStep ⟨cue.size, cue.offset, cursor.position⟩ cue.step cursor.random with
  | (.error fault, random) => return (.error fault, { cursor with random })
  | (.ok plan, random) => return (.ok plan, ⟨random, cursor.position + 1⟩)

variable {stage}

/-- Where what is noted of the beat for a beat number is defined, a term plays it strictly. -/
lemma strictLeafFor_eq {size : ℕ} {song : Song} {term : Term} {requested : Double}
    (h : ∀ operation ∈ match stage.beatFor song.beatmap size requested with
      | .ok (some beat) => term.windowOperations song.beatmap beat
      | _ => [], operation.Defined) :
    stage.strictLeafFor size song term requested =
      some (stage.leafFor size song term requested) := by
  rw [strictLeafFor, leafFor]
  cases hbeat : stage.beatFor song.beatmap size requested with
  | error fault => rfl
  | ok beat? =>
    cases beat? with
    | none => rfl
    | some beat =>
      rw [hbeat] at h
      dsimp only at h ⊢
      rw [strictLeafOf_eq h]
      dsimp only [Bind.bind, Except.bind, Option.bind]
      rcases leafOf song term beat with _ | leaf <;> rfl

/-- Where what is noted of a term is defined, it is planned strictly. -/
lemma strictPlanTerm_eq {place : Place} {term : Term} {stream : Stream}
    (h : ∀ operation ∈ stage.termOperations place term stream, operation.Defined) :
    stage.strictPlanTerm place term stream = some (stage.planTerm place term stream) := by
  unfold termOperations at h
  unfold strictPlanTerm planTerm
  cases hsong : stage.songOf term with
  | error fault => rfl
  | ok song =>
    rw [hsong] at h
    dsimp only at h ⊢
    rw [List.forall_mem_append] at h
    obtain ⟨href, hwindow⟩ := h
    rw [BeatRef.strictResolve_eq href]
    generalize term.beat.ref.resolve place song.beatmap.beatCount stream = resolved at hwindow ⊢
    obtain ⟨_ | requested, random⟩ := resolved
    · rfl
    · dsimp only [Option.bind_eq_bind, Option.bind_some, Except.bind] at hwindow ⊢
      rw [strictLeafFor_eq hwindow]
      rfl

/-- Where what is noted of a step is defined, it is planned strictly. -/
lemma strictPlanStep_eq {place : Place} {step : Step} {stream : Stream}
    (h : ∀ operation ∈ stage.stepNotes stage.termOperations place step stream,
      operation.Defined) :
    stage.strictPlanStep place step stream = some (stage.planStep place step stream) := by
  cases step with
  | single term =>
    rw [strictPlanStep, planStep, strictPlanTerm_eq h]
    rfl
  | mix mode parts =>
    have hparts := strictCollect_eq (fun term stream => strictPlanTerm_eq) h
    rw [strictPlanStep, planStep]
    dsimp only
    rw [hparts]
    rfl

/-- Where what is noted of a cue is defined, it is planned strictly. -/
lemma strictPlanCue_eq {cue : Cue} {cursor : Cursor}
    (h : ∀ operation ∈ stage.cueNotes stage.termOperations cue cursor, operation.Defined) :
    stage.strictPlanCue cue cursor = some (stage.planCue cue cursor) := by
  rw [strictPlanCue, planCue, strictPlanStep_eq h]
  rcases stage.planStep ⟨cue.size, cue.offset, cursor.position⟩ cue.step cursor.random with
    ⟨_ | plan, random⟩ <;> rfl

end Stage

/-- The list with the members at the places `n`, `n - 1`, …, `1` exchanged with random ones. -/
def Stream.strictShuffleFrom {α : Type} : ℕ → List α → Stream → Option (List α × Stream)
  | 0, xs, stream => some (xs, stream)
  | n + 1, xs, stream => do
    let (j, stream) ← Operation.draw? (n + 2) (stream.draw (n + 2))
    strictShuffleFrom n (exchange (n + 1) j xs) stream

/-- Where there is a choice for each member, a list is shuffled strictly. -/
lemma Stream.strictShuffleFrom_eq {α : Type} {n : ℕ}
    (h : ∀ operation ∈ shuffleOperations n, operation.Defined) (xs : List α) (stream : Stream) :
    stream.strictShuffleFrom n xs = some (stream.shuffleFrom n xs) := by
  induction n generalizing xs stream with
  | zero => rfl
  | succ n ih =>
    rw [shuffleOperations, List.forall_mem_cons] at h
    rw [strictShuffleFrom, shuffleFrom, Operation.draw?_eq h.1]
    exact ih h.2 _ _

/-- The order with the members of each group shuffled. -/
def strictShuffleGroups : List ShuffleGroup → List ℕ → Stream → Option (List ℕ × Stream)
  | [], order, stream => some (order, stream)
  | group :: groups, order, stream => do
    let (members, stream) ← stream.strictShuffleFrom (group.slots.length - 1) group.slots
    strictShuffleGroups groups (placeAll order (group.slots.zip members)) stream

/-- Where there is a choice for each member of a group, the groups are shuffled strictly. -/
lemma strictShuffleGroups_eq {groups : List ShuffleGroup}
    (h : ∀ group ∈ groups, ∀ operation ∈ shuffleOperations (group.slots.length - 1),
      operation.Defined) (order : List ℕ) (stream : Stream) :
    strictShuffleGroups groups order stream = some (shuffleGroups groups order stream) := by
  induction groups generalizing order stream with
  | nil => rfl
  | cons group groups ih =>
    rw [List.forall_mem_cons] at h
    rw [strictShuffleGroups, shuffleGroups, Stream.strictShuffleFrom_eq h.1]
    exact ih h.2 _ _

/-- The plans of a pattern from a cursor on, and the cursor behind them. -/
def Stage.strictPlan (stage : Stage) (pattern : Pattern) (cursor : Cursor) :
    Option (Except Fault (List Plan) × Cursor) := do
  let (order, random) ←
    strictShuffleGroups pattern.groups (List.range pattern.steps.length) cursor.random
  let steps := order.filterMap fun index => pattern.steps[index]?
  strictCollect stage.strictPlanCue (cues pattern.size (stage.repetitions pattern.size) steps)
    { cursor with random }

/-- **Strict planning is planning**, where what is noted is defined. -/
theorem Stage.strictPlan_eq {stage : Stage} {pattern : Pattern} {cursor : Cursor}
    (h : ∀ operation ∈ stage.planOperations pattern cursor, operation.Defined) :
    stage.strictPlan pattern cursor = some (stage.plan pattern cursor) := by
  rw [planOperations, List.forall_mem_append] at h
  obtain ⟨hgroups, hcues⟩ := h
  have hshuffle := strictShuffleGroups_eq
    (fun group hgroup operation hmem =>
      hgroups operation (List.mem_flatMap.mpr ⟨group, hgroup, hmem⟩))
    (List.range pattern.steps.length) cursor.random
  rw [strictPlan, hshuffle]
  exact strictCollect_eq (fun cue cursor => strictPlanCue_eq) hcues

/-! ## Strict performing -/

/-- The frames from `start` up to `stop`, as far as the recording goes. -/
def Recording.strictWindow (recording : Recording) (start stop : ℕ) : Option Segment := do
  let stop := min stop recording.frames
  let start := min start stop
  let channels ← recording.channels.mapM (Operation.cut? start stop)
  return ⟨channels⟩

/-- A stretch that lies within the channels is cut out strictly. -/
lemma Recording.strictWindow_eq {recording : Recording} {start stop : ℕ}
    (h : ∀ operation ∈ recording.windowOperations start stop, operation.Defined) :
    recording.strictWindow start stop = some (recording.window start stop) := by
  rw [strictWindow, mapM_eq_some_map fun channel hchannel =>
    Operation.cut?_eq (h (.cut _ _ channel.length) (List.mem_map_of_mem hchannel))]
  rfl

/-- The samples in chunks of `hold`, with the first of each chunk in the place of all of it. -/
def strictHold (hold : ℕ) (channel : List Sample) : Option (List Sample) := do
  let chunks ← Operation.chunk? hold channel
  return chunks.flatMap fun chunk => List.replicate chunk.length (chunk.headD 0)

/-- What is held for some more frames at first, and what follows. -/
lemma holdFrom_eq_append (hold left : ℕ) (held : Sample) (samples : List Sample) :
    holdFrom hold left held samples =
      List.replicate (min left samples.length) held ++
        holdFrom hold 0 held (samples.drop left) := by
  induction samples generalizing left with
  | nil => simp [holdFrom]
  | cons sample samples ih =>
    cases left with
    | zero => simp
    | succ left =>
      rw [holdFrom, ih left, List.length_cons, Nat.succ_min_succ, List.replicate_succ,
        List.drop_succ_cons, List.cons_append]

/-- **Samples are held over chunks**: the first of each is held to its end. -/
lemma holdFrom_zero_eq_flatMap (size : ℕ) (held : Sample) (samples : List Sample) :
    holdFrom (size + 1) 0 held samples =
      (chunksOf size samples).flatMap fun chunk =>
        List.replicate chunk.length (chunk.headD 0) := by
  -- The induction is on the chunks. Where one begins it does not matter what was held before.
  induction samples using chunksOf.induct size generalizing held with
  | case1 => simp [holdFrom, chunksOf]
  | case2 sample samples ih =>
    rw [chunksOf, List.flatMap_cons, ← ih sample, holdFrom, Nat.add_sub_cancel,
      holdFrom_eq_append]
    simp [List.replicate_succ]

/-- Where there are chunks, samples are held strictly. -/
lemma strictHold_eq {hold : ℕ} (h : 0 < hold) (channel : List Sample) :
    strictHold hold channel = some (holdSamples hold channel) := by
  cases hold with
  | zero => cases h
  | succ size =>
    rw [holdSamples, holdFrom_zero_eq_flatMap]
    rfl

/-- The segment after an effect. -/
def Effect.strictTransform (segment : Segment) : Effect → Option Segment
  | downsample hold => do
    let channels ← segment.channels.mapM (strictHold hold)
    return ⟨channels⟩
  | bitcrush depth => do
    let places ← Operation.subtract? depth 1
    let steps ← Operation.shift? places 32
    return segment.mapSamples fun sample =>
      (sample * Binary.ofNat steps).roundAway / Binary.ofNat steps
  | effect => some (effect.transform segment)

/-- Where what is noted of an effect is defined, it is applied strictly. -/
lemma Effect.strictTransform_eq {effect : Effect}
    (h : ∀ operation ∈ effect.operations, operation.Defined) (segment : Segment) :
    effect.strictTransform segment = some (effect.transform segment) := by
  cases effect with
  | downsample hold =>
    rw [operations, List.forall_mem_singleton] at h
    rw [strictTransform, mapM_eq_some_map fun channel _ => strictHold_eq h channel]
    rfl
  | bitcrush depth =>
    rw [operations, List.forall_mem_cons, List.forall_mem_singleton] at h
    obtain ⟨hsubtract, hshift⟩ := h
    simp only [strictTransform, Operation.subtract?_eq hsubtract, Operation.shift?_eq hshift,
      Option.bind_eq_bind, Option.bind_some]
    rfl
  | _ => rfl

/-- Where what is noted of a chain of effects is defined, it is applied strictly. -/
lemma foldlM_strictTransform_eq {effects : List Effect}
    (h : ∀ operation ∈ effects.flatMap Effect.operations, operation.Defined) (segment : Segment) :
    effects.foldlM Effect.strictTransform segment = some (transformAll effects segment) := by
  induction effects generalizing segment with
  | nil => rfl
  | cons effect effects ih =>
    rw [List.flatMap_cons, List.forall_mem_append] at h
    rw [List.foldlM_cons, Effect.strictTransform_eq h.1]
    exact ih h.2 _

/-- The segment of a leaf, on a number of channels. -/
def Leaf.strictPerform (channelCount : ℕ) : Leaf → Option Segment
  | extract _ recording start stop effects => do
    let window ← recording.strictWindow start stop
    let segment ← effects.foldlM Effect.strictTransform window
    return segment.conform channelCount
  | silence frames => some (.silent channelCount frames)

/-- Where what is noted of a leaf is defined, it is performed strictly. -/
lemma Leaf.strictPerform_eq {leaf : Leaf} (h : ∀ operation ∈ leaf.operations, operation.Defined)
    (channelCount : ℕ) :
    leaf.strictPerform channelCount = some (leaf.perform channelCount) := by
  cases leaf with
  | silence frames => rfl
  | extract source recording start stop effects =>
    rw [operations, List.forall_mem_append] at h
    rw [strictPerform, Recording.strictWindow_eq h.1]
    simp only [Option.bind_eq_bind, Option.bind_some]
    rw [foldlM_strictTransform_eq h.2]
    rfl

/-- The segment with every sample kept between the ceiling with a minus sign and the ceiling. -/
def Limiter.strictClamp (limiter : Limiter) (segment : Segment) : Option Segment := do
  let channels ← segment.channels.mapM fun channel =>
    channel.mapM (Operation.clamp? (-limiter.ceiling) limiter.ceiling)
  return ⟨channels⟩

/-- Where what is noted of a limiter is defined, it clamps strictly. -/
lemma Limiter.strictClamp_eq {limiter : Limiter}
    (h : ∀ operation ∈ limiter.operations, operation.Defined) (segment : Segment) :
    limiter.strictClamp segment = some (limiter.clampSegment segment) := by
  rw [operations, List.forall_mem_singleton] at h
  have hchannel : ∀ channel : List Sample,
      channel.mapM (Operation.clamp? (-limiter.ceiling) limiter.ceiling) =
        some (channel.map limiter.clampSample) := fun channel =>
    mapM_eq_some_map fun sample _ => Operation.clamp?_eq h sample
  rw [strictClamp, mapM_eq_some_map fun channel _ => hchannel channel]
  rfl

/-- The segment of a plan, on a number of channels. -/
def Plan.strictPerform (limiter : Limiter) (channelCount : ℕ) : Plan → Option Segment
  | single leaf => leaf.strictPerform channelCount
  | mix mode leaves => do
    let parts ← leaves.mapM (Leaf.strictPerform channelCount)
    limiter.strictClamp (mixDown mode channelCount parts)

/-- **Strict performing is performing**, where what is noted is defined. -/
theorem Plan.strictPerform_eq {limiter : Limiter} {plan : Plan}
    (h : ∀ operation ∈ plan.operations limiter, operation.Defined) (channelCount : ℕ) :
    plan.strictPerform limiter channelCount = some (plan.perform limiter channelCount) := by
  cases plan with
  | single leaf => exact Leaf.strictPerform_eq h channelCount
  | mix mode leaves =>
    rw [operations, List.forall_mem_append] at h
    obtain ⟨hleaves, hlimiter⟩ := h
    have hparts := mapM_eq_some_map fun leaf hleaf =>
      Leaf.strictPerform_eq (fun operation hmem =>
        hleaves operation (List.mem_flatMap.mpr ⟨leaf, hleaf, hmem⟩)) channelCount
    rw [strictPerform, hparts]
    exact Limiter.strictClamp_eq hlimiter _

/-! ## Strict rendering -/

/-- The segments of plans, one after another. -/
def strictPerformAll (limiter : Limiter) (channelCount : ℕ) (plans : List Plan) :
    Option Segment := do
  let segments ← plans.mapM (Plan.strictPerform limiter channelCount)
  return segments.foldl Segment.append (Segment.silent channelCount 0)

/-- Where what is noted of plans is defined, they are performed strictly. -/
lemma strictPerformAll_eq {limiter : Limiter} {plans : List Plan}
    (h : ∀ operation ∈ plans.flatMap (Plan.operations limiter), operation.Defined)
    (channelCount : ℕ) :
    strictPerformAll limiter channelCount plans =
      some (performAll limiter channelCount plans) := by
  have hplans := mapM_eq_some_map fun plan hplan =>
    Plan.strictPerform_eq (fun operation hmem =>
      h operation (List.mem_flatMap.mpr ⟨plan, hplan, hmem⟩)) channelCount
  rw [strictPerformAll, hplans, performAll]
  simp [List.foldl_map]

/-- The recording of a pattern on a song. -/
def strictRender (pattern : Pattern) (song : Song) (table : SongTable) (options : RenderOptions)
    (entropy : UInt64) : Option (Except Fault Recording) :=
  match checkAliases table pattern.aliases with
  | .error fault => some (.error fault)
  | .ok _ => do
    let stage : Stage := ⟨song, table, options.repetition⟩
    match (← stage.strictPlan pattern (.ofSeed (options.seed.getD entropy))).1 with
    | .error fault => return .error fault
    | .ok plans =>
      let limiter := Limiter.ofCeiling options.ceiling
      let joined ← strictPerformAll limiter song.recording.channelCount plans
      return .ok (.ofSegment (← limiter.strictClamp joined) song.recording.rate)

/-- **Strict rendering is rendering**, where what is noted is defined. -/
theorem strictRender_eq {pattern : Pattern} {song : Song} {table : SongTable}
    {options : RenderOptions} {entropy : UInt64}
    (h : ∀ operation ∈ renderOperations pattern song table options entropy, operation.Defined) :
    strictRender pattern song table options entropy =
      some (render pattern song table options entropy) := by
  unfold renderOperations at h
  unfold strictRender render
  cases haliases : checkAliases table pattern.aliases with
  | error fault => rfl
  | ok _ =>
    rw [haliases] at h
    dsimp only at h ⊢
    rw [List.forall_mem_append] at h
    obtain ⟨hplan, hperform⟩ := h
    rw [Stage.strictPlan_eq hplan]
    cases hplans : (Stage.plan ⟨song, table, options.repetition⟩ pattern
        (.ofSeed (options.seed.getD entropy))).1 with
    | error fault =>
      simp only [Option.bind_eq_bind, Option.bind_some, hplans]
      rfl
    | ok plans =>
      rw [hplans, List.forall_mem_append] at hperform
      simp only [Option.bind_eq_bind, Option.bind_some, hplans]
      rw [strictPerformAll_eq hperform.1]
      simp only [Option.bind_some]
      rw [Limiter.strictClamp_eq hperform.2]
      rfl

end Arranger
