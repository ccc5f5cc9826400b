import Arranger.Proofs.Effect.Channels
import Mathlib.Logic.Equiv.Basic

/-!
# Laws of effects

Some effects undo themselves and some do nothing more the second time. An effect that looks at one
moment at a time does the same to a segment that is played backwards. And no effect tells one
channel from another but the one that isolates a channel: where the first two channels are exchanged,
it has to isolate the other one of them.

## Main definitions

* `Arranger.Effect.isInstant` — the effects that look at one moment at a time.
* `Arranger.Effect.mirrored` — an effect on channels that are exchanged.

## Main results

* `Arranger.Effect.transform_reverse` — instant effects and playing backwards change places.
* `Arranger.Effect.transform_swap`, `Arranger.transformAll_swap` — an exchange of channels changes
  places with one effect and with many.
* `Arranger.transformAll_laws` — **the laws of effects**.
-/

namespace Arranger

/-! ## Held samples -/

/-- Samples that are held already are held as they are. -/
lemma holdFrom_holdFrom (hold left : ℕ) (held : Sample) (samples : List Sample) :
    holdFrom hold left held (holdFrom hold left held samples) =
      holdFrom hold left held samples := by
  -- both runs take a new sample at the same places, as they have as many frames left at each
  induction samples generalizing left held with
  | nil => rfl
  | cons sample samples ih =>
    cases left with
    | zero => exact congrArg (sample :: ·) (ih (hold - 1) sample)
    | succ left => exact congrArg (held :: ·) (ih left held)

/-! ## Exchanged and silenced channels -/

section Channels

variable (keep : ℕ) (channels : List (List Sample)) (f : List Sample → List Sample)

/-- The first two channels exchanged twice are as they were. -/
lemma swapFirstTwo_swapFirstTwo : swapFirstTwo (swapFirstTwo channels) = channels := by
  rcases channels with _ | ⟨first, _ | ⟨second, rest⟩⟩ <;> rfl

/-- The first two channels may be exchanged before or after each channel is transformed. -/
lemma swapFirstTwo_map : swapFirstTwo (channels.map f) = (swapFirstTwo channels).map f := by
  rcases channels with _ | ⟨first, _ | ⟨second, rest⟩⟩ <;> rfl

/-- Channels silenced twice are silenced. -/
lemma silenceOthers_silenceOthers :
    silenceOthers keep (silenceOthers keep channels) = silenceOthers keep channels := by
  rw [silenceOthers, silenceOthers, List.mapIdx_mapIdx]
  congr 1
  funext index channel
  rw [Function.comp_apply]
  split_ifs
  · rfl
  · exact List.map_map

/-- Channels may be silenced before or after each channel is transformed, if one channel may. -/
lemma silenceOthers_map
    (hf : ∀ channel : List Sample, f (channel.map fun _ => 0) = (f channel).map fun _ => 0) :
    silenceOthers keep (channels.map f) = (silenceOthers keep channels).map f := by
  refine List.ext_getElem ?_ fun index _ _ => ?_
  · simp only [silenceOthers, List.length_mapIdx, List.length_map]
  · simp only [silenceOthers, List.getElem_mapIdx, List.getElem_map, apply_ite f, hf]

/-- Where the first two channels are exchanged, so is the one that is kept. -/
lemma swapFirstTwo_silenceOthers (h : 2 ≤ channels.length) :
    swapFirstTwo (silenceOthers keep channels) =
      silenceOthers (Equiv.swap 0 1 keep) (swapFirstTwo channels) := by
  obtain _ | ⟨first, _ | ⟨second, rest⟩⟩ := channels
  · simp at h
  · simp at h
  -- the one that is kept is one of the two, or a later one that stays in its place
  match keep with
  | 0 => simp [silenceOthers, swapFirstTwo, List.mapIdx_cons]
  | 1 => simp [silenceOthers, swapFirstTwo, List.mapIdx_cons]
  | keep + 2 =>
    have hkeep : Equiv.swap 0 1 (keep + 2) = keep + 2 :=
      Equiv.swap_apply_of_ne_of_ne (by omega) (by omega)
    simp [silenceOthers, swapFirstTwo, List.mapIdx_cons, hkeep]

end Channels

/-! ## Instant effects -/

/-- Each sample may be transformed before or after the segment is played backwards. -/
lemma Segment.mapSamples_reverse (segment : Segment) (f : Sample → Sample) :
    (segment.mapSamples f).mapChannels List.reverse =
      (segment.mapChannels List.reverse).mapSamples f := by
  rw [mapSamples, mapSamples, mapChannels_mapChannels, mapChannels_mapChannels]
  exact congrArg segment.mapChannels (funext fun _ => List.map_reverse.symm)

namespace Effect

/-- Whether an effect looks at one moment at a time. -/
def isInstant : Effect → Bool
  | volume _ | bitcrush _ | swap | isolate _ => true
  | speed _ | reverse | downsample _ | gradient _ => false

/-- **An instant effect and playing backwards change places.** -/
lemma transform_reverse {effect : Effect} (h : effect.isInstant) (segment : Segment) :
    reverse.transform (effect.transform segment) =
      effect.transform (reverse.transform segment) := by
  cases effect with
  | volume gain => exact segment.mapSamples_reverse _
  | bitcrush depth => exact segment.mapSamples_reverse _
  | swap => exact congrArg Segment.mk (swapFirstTwo_map _ _).symm
  | isolate keep =>
    refine congrArg Segment.mk (silenceOthers_map _ _ _ fun channel => ?_).symm
    exact List.map_reverse.symm
  | _ => simp [isInstant] at h

/-! ## Effects on exchanged channels -/

/-- The effect that does the same where the first two channels are exchanged. -/
def mirrored : Effect → Effect
  | isolate keep => isolate (Equiv.swap 0 1 keep)
  | effect => effect

/-- Effects on each channel do the same where the first two are exchanged. -/
lemma mirrored_of_code_ne {effect : Effect} (h : effect.code ≠ 'c') : effect.mirrored = effect := by
  cases effect with
  | isolate keep => exact absurd rfl h
  | _ => rfl

/-- **An exchange of channels and an effect change places**, if the effect is mirrored. -/
lemma transform_swap {segment : Segment} (h : 2 ≤ segment.channelCount) (effect : Effect) :
    swap.transform (effect.transform segment) =
      effect.mirrored.transform (swap.transform segment) := by
  by_cases hcode : effect.code = 'c'
  · cases effect with
    | swap => rfl
    | isolate keep => exact congrArg Segment.mk (swapFirstTwo_silenceOthers keep _ h)
    | _ => simp [code] at hcode
  · obtain ⟨f, hf⟩ := exists_mapChannels hcode
    rw [mirrored_of_code_ne hcode, hf, hf]
    exact congrArg Segment.mk (swapFirstTwo_map _ f)

end Effect

/-- **An exchange of channels and effects change places**, if the effects are mirrored. -/
lemma transformAll_swap {segment : Segment} (h : 2 ≤ segment.channelCount) (effects : List Effect) :
    Effect.swap.transform (transformAll effects segment) =
      transformAll (effects.map Effect.mirrored) (Effect.swap.transform segment) := by
  induction effects generalizing segment with
  | nil => rfl
  | cons effect effects ih =>
    have hrest := ih (h.trans_eq (channelCount_transform segment effect).symm)
    rw [Effect.transform_swap h effect] at hrest
    exact hrest

/-! ## Laws -/

/-- **The laws of effects.** Playing backwards and exchanging channels undo themselves. Isolating a
channel and holding samples do nothing more the second time. Playing backwards and an instant effect
change places, and so do an exchange of channels and any effects, if the effects are mirrored. -/
theorem transformAll_laws (segment : Segment) :
    transformAll [.reverse, .reverse] segment = segment ∧
    transformAll [.swap, .swap] segment = segment ∧
    (∀ keep, transformAll [.isolate keep, .isolate keep] segment =
      transformAll [.isolate keep] segment) ∧
    (∀ hold, transformAll [.downsample hold, .downsample hold] segment =
      transformAll [.downsample hold] segment) ∧
    (∀ effect : Effect, effect.isInstant →
      transformAll [effect, .reverse] segment = transformAll [.reverse, effect] segment) ∧
    (2 ≤ segment.channelCount → ∀ effects, transformAll (effects ++ [.swap]) segment =
      transformAll (.swap :: effects.map Effect.mirrored) segment) := by
  refine ⟨?reverse, ?swap, fun keep => ?isolate, fun hold => ?downsample,
    fun effect hinstant => ?instant, fun hchannels effects => ?mirrored⟩
  case reverse =>
    show (segment.mapChannels List.reverse).mapChannels List.reverse = segment
    rw [Segment.mapChannels_mapChannels, List.reverse_involutive.comp_self, Segment.mapChannels,
      List.map_id]
  case swap => exact congrArg Segment.mk (swapFirstTwo_swapFirstTwo segment.channels)
  case isolate => exact congrArg Segment.mk (silenceOthers_silenceOthers keep segment.channels)
  case downsample =>
    show (segment.mapChannels (holdSamples hold)).mapChannels (holdSamples hold) = _
    rw [Segment.mapChannels_mapChannels]
    exact congrArg segment.mapChannels (funext fun channel => holdFrom_holdFrom hold 0 0 channel)
  case instant => exact Effect.transform_reverse hinstant segment
  case mirrored =>
    rw [transformAll, List.foldl_append]
    exact transformAll_swap hchannels effects

/-- Two channels that are made louder or isolated, backwards and exchanged. -/
theorem transformAll_laws_two_channels :
    (Effect.volume 2).isInstant ∧ 2 ≤ Segment.channelCount ⟨[[1, 2, 3], [3, 0, 2]]⟩ ∧
    transformAll [.volume 2, .reverse] ⟨[[1, 2, 3], [3, 0, 2]]⟩ =
      transformAll [.reverse, .volume 2] ⟨[[1, 2, 3], [3, 0, 2]]⟩ ∧
    transformAll [.isolate 0, .reverse, .swap] ⟨[[1, 2, 3], [3, 0, 2]]⟩ =
      transformAll [.swap, .isolate 1, .reverse] ⟨[[1, 2, 3], [3, 0, 2]]⟩ ∧
    transformAll [.isolate 0, .reverse, .swap] ⟨[[1, 2, 3], [3, 0, 2]]⟩ =
      ⟨[[0, 0, 0], [3, 2, 1]]⟩ := by
  have hinstant : (Effect.volume 2).isInstant := rfl
  have hchannels : 2 ≤ Segment.channelCount ⟨[[1, 2, 3], [3, 0, 2]]⟩ := by decide
  obtain ⟨-, -, -, -, hreverse, hswap⟩ := transformAll_laws ⟨[[1, 2, 3], [3, 0, 2]]⟩
  exact ⟨hinstant, hchannels, hreverse _ hinstant, hswap hchannels [.isolate 0, .reverse], rfl⟩

end Arranger
