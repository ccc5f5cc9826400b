import Arranger.Effect.Basic
import Arranger.Pattern.Scanning
import Arranger.Proofs.Number.Integral

/-!
# Effects as they are written

An effect that comes of a letter and a number is the effect of the letter and the number that it is
written with.

## Main definitions

* `Arranger.Binary.isInfinite`, `Arranger.Effect.hasInfiniteGain` — whether a number, and the gain of
  a volume effect, is infinite.
* `Arranger.Effect.Writable` — an effect can be read again as it is written.

## Main results

* `Arranger.Effect.writable_of_ofCode` — effects of letters and numbers can be read again.
-/

namespace Arranger

namespace Binary

variable {format : Format} {x : Binary format}

/-! ## Infinities -/

/-- Whether the number is one of the infinities. -/
def isInfinite : Binary format → Bool
  | infinite _ => true
  | _ => false

/-- A number that is not infinite is finite. -/
lemma isFinite_of_not_isInfinite (hx : x ≠ .nan) (h : x.isInfinite = false) :
    x.isFinite = true := by
  cases x with
  | nan => exact absurd rfl hx
  | infinite s => cases h
  | finite s m e hc => rfl

/-- A finite number is one in another format. -/
lemma convert_ne_nan {target : Format} [target.Regular] (hx : x.isFinite = true) :
    (x.convert : Binary target) ≠ .nan := by
  cases x with
  | nan => cases hx
  | infinite s => cases hx
  | finite s m e hc => exact roundSigned_ne_nan s _

end Binary

namespace Effect

/-- Whether the effect has a gain that is infinite. -/
def hasInfiniteGain : Effect → Bool
  | volume gain => gain.isInfinite
  | _ => false

/-- An effect that can be read again as it is written. -/
structure Writable (effect : Effect) : Prop where
  /-- Its letter is one. -/
  letter : isLetterChar effect.code = true
  /-- It is the effect of its letter and number. -/
  reads : ofCode effect.code effect.parameter? = .ok effect
  /-- Its number is finite and has no minus sign. -/
  parameter : ∀ x ∈ effect.parameter?, x.isFinite = true ∧ x.isNegative = false

/-- A whole number from one on has no minus sign, and is the one of its word unless it is too
large. -/
lemma ofNat_toWord_roundAway {x : Double} (hx : x.isFinite = true) (h : 1 ≤ x.roundAway) :
    x.roundAway.isNegative = false ∧
      (Binary.ofNat x.roundAway.toWord = x.roundAway ∨ x.roundAway.toWord = maxWord) := by
  obtain ⟨hfinite, hvalue⟩ := Binary.roundAway_spec hx
  obtain ⟨hone, hvalueOne, -⟩ := Binary.one_spec .double
  rw [Binary.le_iff hone hfinite, hvalueOne] at h
  have hsign := Binary.isNegative_of_pos (zero_lt_one.trans_le h)
  exact ⟨hsign, Binary.ofNat_toWord hfinite hsign hvalue⟩

/-- A whole number within bounds is found again. -/
lemma wholeWithin?_ofNat {high k : ℕ} {x : Double} (hhigh : high ≤ 2 ^ 53)
    (h : wholeWithin? 1 (Binary.ofNat high) x = some k) :
    wholeWithin? 1 (Binary.ofNat high) (Binary.ofNat k) = some k ∧
      (Binary.ofNat k : Double).isFinite = true ∧ (Binary.ofNat k : Double).isNegative = false := by
  simp only [wholeWithin?] at h
  split_ifs at h with hrange
  cases h
  obtain ⟨hhighFinite, hhighValue, -⟩ := Binary.ofNat_spec .double hhigh
  have hfinite := Binary.isFinite_of_le (Binary.one_spec _).1 hhighFinite hrange.1 hrange.2
  have hx := Binary.isFinite_of_roundAway hfinite
  obtain ⟨hsign, hword⟩ := ofNat_toWord_roundAway hx hrange.1
  have hsmall : x.roundAway.toWord ≠ maxWord := by
    have hmax : high < maxWord := hhigh.trans_lt (by decide)
    rw [Binary.le_iff hfinite hhighFinite, hhighValue] at hrange
    exact (Binary.toWord_lt (by decide) hfinite (hrange.2.trans_lt (by exact_mod_cast hmax))).ne
  rw [hword.resolve_right hsmall]
  refine ⟨?_, hfinite, hsign⟩
  simp only [wholeWithin?]
  rw [Binary.roundAway_roundAway hx, if_pos hrange]

/-! ## The effects of each letter -/

section Letters

variable {x : Double} {effect : Effect}

/-- Speed effects can be read again. -/
lemma ofSpeed_spec (hx : x.isFinite = true) (h : ofSpeed x = .ok effect) :
    effect.code = 's' ∧ effect.Writable := by
  have hspeed := h
  unfold ofSpeed at h
  split_ifs at h with hslow
  cases h
  have hmin : minSpeed.isFinite = true ∧ 0 < minSpeed.value := by decide +kernel
  have hle := Binary.le_of_not_lt (Binary.ne_nan hx) (Binary.ne_nan hmin.1) hslow
  rw [Binary.le_iff hmin.1 hx] at hle
  refine ⟨rfl, rfl, ?_, ?_⟩
  · simp [ofCode, code, parameter?, hx, hspeed]
  · rintro y ⟨⟩
    exact ⟨hx, Binary.isNegative_of_pos (hmin.2.trans_le hle)⟩

/-- Volume effects of finite gain are those of their letter and number, also where the gain has a
minus sign. -/
lemma ofCode_volume {gain : Sample} (hgain : gain.isFinite = true) :
    ofCode (volume gain).code (volume gain).parameter? = .ok (volume gain) := by
  simp [ofCode, code, parameter?, (Binary.convert_spec hgain).1, Binary.convert_convert hgain]

/-- Volume effects of finite gain can be read again. -/
lemma writable_volume {gain : Sample} (hgain : gain.isFinite = true)
    (hsign : gain.isNegative = false) : (volume gain).Writable := by
  obtain ⟨hfinite, -, hwide⟩ := Binary.convert_spec hgain
  refine ⟨rfl, ofCode_volume hgain, ?_⟩
  rintro y ⟨⟩
  exact ⟨hfinite, hwide.trans hsign⟩

/-- Downsample effects can be read again. -/
lemma ofHold_spec (hx : x.isFinite = true) (h : ofHold x = .ok effect) :
    effect.code = 'd' ∧ effect.Writable := by
  simp only [ofHold] at h
  split_ifs at h with hlow
  cases h
  obtain ⟨hfinite, -⟩ := Binary.roundAway_spec hx
  have hone := Binary.ne_nan (Binary.one_spec .double).1
  have hle : 1 ≤ x.roundAway := Binary.le_of_not_lt (Binary.ne_nan hfinite) hone hlow
  obtain ⟨hsign, hword | hword⟩ := ofNat_toWord_roundAway hx hle
  · refine ⟨rfl, rfl, ?_, ?_⟩
    · simp [ofCode, code, parameter?, hword, hfinite, ofHold, Binary.roundAway_roundAway hx, hlow]
    · rintro y ⟨⟩
      rw [hword]
      exact ⟨hfinite, hsign⟩
  · rw [hword]
    refine ⟨rfl, rfl, by decide +kernel, ?_⟩
    rintro y ⟨⟩
    decide +kernel

/-- Effects with a whole number within bounds can be read again, if the number is all that reading
looks at. -/
lemma writable_of_wholeWithin? {high k : ℕ} (hhigh : high ≤ 2 ^ 53)
    (h : wholeWithin? 1 (Binary.ofNat high) x = some k)
    (hletter : isLetterChar effect.code = true)
    (hparameter : effect.parameter? = some (Binary.ofNat k))
    (hreads : ∀ y : Double, y.isFinite = true →
      wholeWithin? 1 (Binary.ofNat high) y = some k → ofCode effect.code (some y) = .ok effect) :
    effect.Writable := by
  obtain ⟨hagain, hfinite, hsign⟩ := wholeWithin?_ofNat hhigh h
  refine ⟨hletter, ?_, ?_⟩
  · rw [hparameter]
    exact hreads _ hfinite hagain
  · rw [hparameter]
    rintro y ⟨⟩
    exact ⟨hfinite, hsign⟩

/-- Bitcrush effects can be read again. -/
lemma ofDepth_spec (h : ofDepth x = .ok effect) : effect.code = 'b' ∧ effect.Writable := by
  unfold ofDepth at h
  split at h
  · next k hk =>
    cases h
    refine ⟨rfl, writable_of_wholeWithin? (show 24 ≤ 2 ^ 53 by decide) hk rfl rfl ?_⟩
    intro y hy hagain
    change wholeWithin? 1 24 y = some k at hagain
    simp [ofCode, code, hy, ofDepth, hagain]
  · cases h

/-- Gradient effects can be read again. -/
lemma ofPasses_spec (h : ofPasses x = .ok effect) : effect.code = 'g' ∧ effect.Writable := by
  unfold ofPasses at h
  split at h
  · next k hk =>
    cases h
    refine ⟨rfl, writable_of_wholeWithin? (show 8 ≤ 2 ^ 53 by decide) hk rfl rfl ?_⟩
    intro y hy hagain
    change wholeWithin? 1 8 y = some k at hagain
    simp [ofCode, code, hy, ofPasses, hagain]
  · cases h

/-- Isolate effects can be read again. -/
lemma ofChannel_spec (h : ofChannel x = .ok effect) : effect.code = 'c' ∧ effect.Writable := by
  unfold ofChannel at h
  split_ifs at h
  · cases h
    refine ⟨rfl, rfl, by decide +kernel, ?_⟩
    rintro y ⟨⟩
    decide +kernel
  · cases h
    refine ⟨rfl, rfl, by decide +kernel, ?_⟩
    rintro y ⟨⟩
    decide +kernel

end Letters

/-! ## The effects of all letters -/

section Codes

variable {code : Char} {parameter : Option Double} {effect : Effect}

/-- The number of an effect is finite. -/
lemma isFinite_of_ofCode (h : ofCode code parameter = .ok effect) :
    ∀ x ∈ parameter, x.isFinite = true := by
  rintro x rfl
  rw [← Bool.not_eq_false]
  intro hx
  simp [ofCode, hx] at h

/-- **An effect has the letter that it comes of.** It can be read again if the letter is not `v`,
and with this letter it is the volume effect of the number. -/
lemma ofCode_spec (h : ofCode code parameter = .ok effect) :
    effect.code = code ∧ (code ≠ 'v' → effect.Writable) ∧
      (code = 'v' → effect = .volume (parameter.getD (1 / 2)).convert) := by
  have hfinite := isFinite_of_ofCode h
  have hgetD : ∀ default : Double, default.isFinite = true →
      (parameter.getD default).isFinite = true := by
    intro default hdefault
    cases parameter with
    | none => exact hdefault
    | some x => exact hfinite x rfl
  have hany : ¬ parameter.any (!·.isFinite) = true := by
    rw [Option.any_eq_true]
    rintro ⟨x, hx, hinfinite⟩
    rw [hfinite x hx] at hinfinite
    cases hinfinite
  unfold ofCode at h
  rw [if_neg hany] at h
  split at h
  · obtain ⟨hcode, hwritable⟩ := ofSpeed_spec (hgetD 2 (Binary.isFinite_ofNat (by decide))) h
    exact ⟨hcode, fun _ => hwritable, nofun⟩
  · split_ifs at h
    cases h
    exact ⟨rfl, fun _ => ⟨rfl, rfl, by rintro x ⟨⟩⟩, nofun⟩
  · cases h
    exact ⟨rfl, fun hne => absurd rfl hne, fun _ => rfl⟩
  · obtain ⟨hcode, hwritable⟩ := ofHold_spec (hgetD 8 (Binary.isFinite_ofNat (by decide))) h
    exact ⟨hcode, fun _ => hwritable, nofun⟩
  · obtain ⟨hcode, hwritable⟩ := ofDepth_spec h
    exact ⟨hcode, fun _ => hwritable, nofun⟩
  · obtain ⟨hcode, hwritable⟩ := ofPasses_spec h
    exact ⟨hcode, fun _ => hwritable, nofun⟩
  · split at h
    · cases h
      exact ⟨rfl, fun _ => ⟨rfl, rfl, by rintro x ⟨⟩⟩, nofun⟩
    · obtain ⟨hcode, hwritable⟩ := ofChannel_spec h
      exact ⟨hcode, fun _ => hwritable, nofun⟩
  · cases h

/-- **Effects of letters and numbers can be read again as they are written**, if their gain is not
infinite. -/
theorem writable_of_ofCode (h : ofCode code parameter = .ok effect)
    (hparameter : ∀ x ∈ parameter, x.isNegative = false) (hgain : effect.hasInfiniteGain = false) :
    effect.Writable := by
  obtain ⟨-, hother, hvolume⟩ := ofCode_spec h
  by_cases hcode : code = 'v'
  · obtain rfl := hvolume hcode
    have hnumber : (parameter.getD (1 / 2)).isFinite = true ∧
        (parameter.getD (1 / 2)).isNegative = false := by
      cases parameter with
      | none => decide +kernel
      | some x => exact ⟨isFinite_of_ofCode h x rfl, hparameter x rfl⟩
    exact writable_volume
      (Binary.isFinite_of_not_isInfinite (Binary.convert_ne_nan hnumber.1) hgain)
      (Binary.isNegative_convert hnumber.2)
  · exact hother hcode

end Codes

end Effect

end Arranger
