import Arranger.Proofs.Effect.Writing
import Arranger.Proofs.Number.Grid

/-!
# Effects read again from their letter and number

An effect has a letter and a number, and from these the same effect is read again. The number may be
another one than the effect was read from: it is rounded to a whole number, kept within a word, or
narrowed to a sample and widened again. Only narrowing can make an infinity of it, and an infinite
number is none that is read.

## Main definitions

* `Arranger.Effect.Overflows` — a gain that is infinite as a sample.

## Main results

* `Arranger.Binary.isInfinite_convert_iff` — which numbers are infinite in another format.
* `Arranger.Effect.ofCode_code_parameter?` — effects are read again just if they have no such gain.
-/

namespace Arranger

/-- A finite number is not infinite. -/
lemma Binary.isInfinite_of_isFinite {format : Format} {x : Binary format}
    (hx : x.isFinite = true) : x.isInfinite = false := by
  cases x with
  | nan => cases hx
  | infinite s => cases hx
  | finite s m e hc => rfl

/-- A finite number is infinite in another format if it is half way between the largest number of
the format and its limit, or beyond that. -/
lemma Binary.isInfinite_convert_iff {source target : Format} [target.Regular] {x : Binary source}
    (hx : x.isFinite = true) : (x.convert : Binary target).isInfinite = true ↔
      (2 ^ target.precision - 1 / 2) * 2 ^ target.maxExponent ≤ |x.value| := by
  rw [← Format.limit_le_abs_nearest_iff]
  cases x with
  | nan => cases hx
  | infinite s => cases hx
  | finite s m e hc =>
    set q := (Binary.finite s m e hc).value
    show (roundSigned s q).isInfinite = true ↔ _
    rcases lt_or_ge |target.nearest q| target.limit with hlt | hge
    · refine iff_of_false ?_ (not_le.mpr hlt)
      rw [isInfinite_of_isFinite (roundSigned_of_lt s hlt).1]
      exact Bool.false_ne_true
    · exact iff_of_true (by rw [roundSigned_of_le s hge]; rfl) hge

namespace Effect

/-- Whether the gain of a volume effect is infinite as a sample: the number is half way between the
largest sample and the power of two behind it, or beyond that. -/
def Overflows (code : Char) (parameter : Option Double) : Prop :=
  code = 'v' ∧ ∃ x ∈ parameter, (2 ^ 128 - 2 ^ 103 : ℚ) ≤ |x.value|

variable {code : Char} {parameter : Option Double} {effect : Effect}

/-- An effect has an infinite gain if the number that it is read from overflows. -/
lemma hasInfiniteGain_iff (h : ofCode code parameter = .ok effect) :
    effect.hasInfiniteGain = true ↔ Overflows code parameter := by
  obtain ⟨rfl, -, hvolume⟩ := ofCode_spec h
  have hbound : (2 ^ 128 - 2 ^ 103 : ℚ) =
      (2 ^ Format.single.precision - 1 / 2) * 2 ^ Format.single.maxExponent := by
    norm_num [Format.single]
  by_cases hcode : effect.code = 'v'
  · obtain rfl := hvolume hcode
    rw [hasInfiniteGain, Overflows, hbound]
    cases parameter with
    | none => exact iff_of_false (by decide +kernel) (by rintro ⟨-, x, ⟨⟩, -⟩)
    | some x =>
      rw [Option.getD_some, Binary.isInfinite_convert_iff (isFinite_of_ofCode h x rfl)]
      refine ⟨fun hlarge => ⟨hcode, x, rfl, hlarge⟩, ?_⟩
      rintro ⟨-, _, ⟨⟩, hlarge⟩
      exact hlarge
  · refine iff_of_false ?_ fun hoverflows => hcode hoverflows.1
    cases effect with
    | volume gain => exact absurd rfl hcode
    | _ => exact Bool.false_ne_true

/-- **An effect is read again from its letter and number**, and the letter is the one that it comes
of. This fails just for volume effects whose gain is infinite as a sample, as an infinite number is
refused.

**Proof sketch.** The whole numbers of the other effects are in range again, as rounding them changes
nothing, and a number that is kept within a word is kept there again. A gain is not changed by
widening it to a 64-bit number and narrowing it again. -/
theorem ofCode_code_parameter? (h : ofCode code parameter = .ok effect) :
    effect.code = code ∧
      (¬ Overflows code parameter → ofCode effect.code effect.parameter? = .ok effect) ∧
      (Overflows code parameter →
        ofCode effect.code effect.parameter? = .error (.notFinite code)) := by
  obtain ⟨hcode, hother, hvolume⟩ := ofCode_spec h
  refine ⟨hcode, fun hsmall => ?_, fun hlarge => ?_⟩
  · by_cases hletter : code = 'v'
    · have hnumber : (parameter.getD (1 / 2)).isFinite = true := by
        cases parameter with
        | none => decide +kernel
        | some x => exact isFinite_of_ofCode h x rfl
      have hgain : effect.hasInfiniteGain = false :=
        Bool.eq_false_iff.mpr fun hinfinite => hsmall ((hasInfiniteGain_iff h).mp hinfinite)
      obtain rfl := hvolume hletter
      exact ofCode_volume (Binary.isFinite_of_not_isInfinite (Binary.convert_ne_nan hnumber) hgain)
    · exact (hother hletter).reads
  · have hgain := (hasInfiniteGain_iff h).mpr hlarge
    rw [← hcode]
    cases effect with
    | volume gain =>
      cases gain with
      | infinite negative => rfl
      | nan => cases hgain
      | finite s m e hc => cases hgain
    | _ => cases hgain

/-- A tenth with a minus sign as a gain, which is another number as a sample, and a hold of so many
frames that no word is large enough for it. Both effects are read again. -/
theorem ofCode_code_parameter?_tenth_and_word :
    (∃ effect, ofCode 'v' (some (-1 / 10)) = .ok effect ∧ effect.parameter? ≠ some (-1 / 10) ∧
      ofCode effect.code effect.parameter? = .ok effect) ∧
    ofCode 'd' (some (.ofNat (10 ^ 300))) = .ok (.downsample maxWord) ∧
      ofCode 'd' (downsample maxWord).parameter? = .ok (.downsample maxWord) := by
  have hvolume : ofCode 'v' (some (-1 / 10)) = .ok (.volume (-1 / 10)) := by decide +kernel
  have hhold : ofCode 'd' (some (.ofNat (10 ^ 300))) = .ok (.downsample maxWord) := by
    decide +kernel
  refine ⟨⟨_, hvolume, by decide +kernel, ?_⟩, hhold, ?_⟩
  · refine (ofCode_code_parameter? hvolume).2.1 ?_
    rintro ⟨-, x, ⟨⟩, hlarge⟩
    exact absurd hlarge (by decide +kernel)
  · exact (ofCode_code_parameter? hhold).2.1 fun hoverflows => absurd hoverflows.1 (by decide)

/-- The gain `10 ^ 39` is a finite number, but infinite as a sample. The effect that is read from it
has an infinite number, which is not read again. -/
theorem ofCode_large_gain :
    ∃ effect, ofCode 'v' (some (.ofNat (10 ^ 39))) = .ok effect ∧
      effect.parameter? = some (.infinite false) ∧
      ofCode effect.code effect.parameter? = .error (.notFinite 'v') :=
  ⟨.volume (.infinite false), by decide +kernel, rfl, rfl⟩

end Effect

end Arranger
