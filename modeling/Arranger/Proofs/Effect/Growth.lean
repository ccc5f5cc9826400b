import Arranger.Proofs.Effect.Length
import Arranger.Proofs.Number.Grid
import Arranger.Proofs.Pattern.Bounds

/-!
# How much effects stretch a segment

Speed divides the number of frames by a factor that is at least `1 / 64`. So it makes at most 64
frames of each one, and as what is left is rounded up, a frame at least remains however large the
factor is. The other effects keep the number of frames. So a chain of effects stretches a segment by
`64` at most for each of its speed effects, and never makes it empty.

## Main definitions

* `Arranger.Effect.isSpeed`, `Arranger.speedCount` — the speed effects of a chain.

## Main results

* `Arranger.Effect.Bounded.framesAfter_bounds` — the number of frames after an effect.
* `Arranger.framesAfterAll_bounds` — the number of frames after a chain of effects.
* `Arranger.transformAll_bounds` — **a chain of effects** stretches a segment by a bounded factor
  and keeps its shape.
-/

namespace Arranger

/-- Whether the effect is speed, of any factor. -/
def Effect.isSpeed : Effect → Bool
  | speed _ => true
  | _ => false

/-- The number of speed effects in a chain. -/
def speedCount (effects : List Effect) : ℕ :=
  effects.countP Effect.isSpeed

/-! ## Numbers of frames -/

namespace Effect

/-- Effects that keep within bounds can be played. -/
lemma Bounded.isPlayable {effect : Effect} (h : effect.Bounded) : effect.IsPlayable := by
  rintro factor rfl
  exact ⟨h.1, pos_of_minSpeed_le h.1 h.2⟩

variable {frames : ℕ}

/-- A positive number of frames divided by a factor is not rounded to zero, however large the factor
is. -/
lemma nearest_div_pos (hpos : 0 < frames) {factor : Double} (hfactor : 0 < factor.value) :
    0 < Format.double.nearest (frames / factor.value) := by
  have hsmallest : Format.double.Representable (2 ^ (-1024 : ℤ)) :=
    ⟨1, -1024, by decide, by decide, by rw [Nat.cast_one, one_mul, abs_of_pos (two_zpow_pos _)]⟩
  have hlimit : factor.value ≤ 2 ^ (1024 : ℤ) :=
    (le_abs_self _).trans (Binary.abs_value_lt_limit factor).le
  have hone : (1 : ℚ) ≤ frames := by exact_mod_cast hpos
  refine (two_zpow_pos (-1024)).trans_le (hsmallest.le_nearest ?_)
  rw [zpow_neg, ← one_div]
  exact div_le_div₀ (by linarith) hone hfactor hlimit

/-- Speed makes at most 64 frames of each one, and leaves one at least. -/
lemma framesAfter_speed_bounds (hframes : 64 * frames ≤ 2 ^ 52) {factor : Double}
    (hbounded : (speed factor).Bounded) :
    (speed factor).framesAfter frames ≤ 64 * frames ∧
      ((speed factor).framesAfter frames = 0 ↔ frames = 0) := by
  obtain ⟨hfinite, hslow⟩ := hbounded
  by_cases hkept : factor.numEq 1 = true ∨ frames ≤ 1
  · rw [framesAfter, if_pos hkept]
    exact ⟨by omega, Iff.rfl⟩
  obtain ⟨hone, hmore⟩ := not_or.mp hkept
  rw [Bool.not_eq_true] at hone
  rw [framesAfter_speed (by omega) (by omega) hfinite hslow hone]
  obtain ⟨hmin, hminValue⟩ := minSpeed_spec
  rw [show (1 / 64 : Double) = minSpeed from rfl, Binary.le_iff hmin hfinite, hminValue] at hslow
  have hpos : 0 < factor.value := by linarith
  have hceil := ceil_pos (nearest_div_pos (by omega : 0 < frames) hpos)
  have hquotient : frames / factor.value ≤ (64 * frames : ℕ) := by
    have hscaled := mul_le_mul_of_nonneg_left hslow (Nat.cast_nonneg (α := ℚ) frames)
    rw [div_le_iff₀ hpos]
    push_cast
    linarith
  have hhigh : (Format.double.nearest (frames / factor.value)).ceil ≤ ((64 * frames : ℕ) : ℤ) :=
    Rat.ceil_le_iff.mpr (by
      exact_mod_cast Format.nearest_le_natCast (hframes.trans (by decide)) hquotient)
  omega

/-- **The number of frames after an effect**: none is left only of none, and only speed makes more
of them. -/
lemma Bounded.framesAfter_bounds {effect : Effect} (h : effect.Bounded)
    (hframes : 64 ^ speedCount [effect] * frames ≤ 2 ^ 52) :
    effect.framesAfter frames ≤ 64 ^ speedCount [effect] * frames ∧
      (effect.framesAfter frames = 0 ↔ frames = 0) := by
  cases effect with
  | speed factor => exact framesAfter_speed_bounds hframes h
  | _ => exact ⟨(Nat.one_mul frames).ge, Iff.rfl⟩

end Effect

/-- **The number of frames after a chain of effects.** -/
lemma framesAfterAll_bounds {effects : List Effect} (h : ∀ effect ∈ effects, effect.Bounded)
    {frames : ℕ} (hframes : 64 ^ speedCount effects * frames ≤ 2 ^ 52) :
    framesAfterAll frames effects ≤ 64 ^ speedCount effects * frames ∧
      (framesAfterAll frames effects = 0 ↔ frames = 0) := by
  induction effects generalizing frames with
  | nil => exact ⟨(Nat.one_mul frames).ge, Iff.rfl⟩
  | cons effect effects ih =>
    rw [List.forall_mem_cons] at h
    have hsplit : 64 ^ speedCount (effect :: effects) * frames =
        64 ^ speedCount effects * (64 ^ speedCount [effect] * frames) := by
      rw [speedCount, ← List.singleton_append, List.countP_append, Nat.add_comm, pow_add, mul_assoc]
      rfl
    rw [hsplit] at hframes ⊢
    have hfirst := h.1.framesAfter_bounds
      ((Nat.le_mul_of_pos_left _ (Nat.pow_pos (by decide))).trans hframes)
    have hgrown := Nat.mul_le_mul_left (64 ^ speedCount effects) hfirst.1
    have hrest := ih h.2 (hgrown.trans hframes)
    exact ⟨hrest.1.trans hgrown, hrest.2.trans hfirst.2⟩

/-- Without speed the number of frames is kept. -/
lemma framesAfterAll_of_speedCount_eq_zero {effects : List Effect} (h : speedCount effects = 0)
    (frames : ℕ) : framesAfterAll frames effects = frames := by
  induction effects with
  | nil => rfl
  | cons effect effects ih =>
    rw [speedCount, List.countP_eq_zero, List.forall_mem_cons] at h
    have hfirst : effect.framesAfter frames = frames :=
      effect.framesAfter_of_ne (fun factor heq => h.1 (by rw [heq]; rfl)) frames
    rw [framesAfterAll, List.foldl_cons, hfirst]
    exact ih (List.countP_eq_zero.mpr h.2)

/-! ## Segments -/

/-- **A chain of effects of letters and numbers keeps the number of channels and leaves them equally
long.** It never makes a segment empty, and of each frame it makes at most 64 for every speed effect
in it. Without speed it keeps the number of frames. -/
theorem transformAll_bounds {segment : Segment} {effects : List Effect}
    (hshape : ∀ channel ∈ segment.channels, channel.length = segment.frames)
    (hcode : ∀ effect ∈ effects, ∃ code parameter, Effect.ofCode code parameter = .ok effect)
    (hframes : 64 ^ speedCount effects * segment.frames ≤ 2 ^ 52) :
    (transformAll effects segment).channelCount = segment.channelCount ∧
      (∀ channel ∈ (transformAll effects segment).channels,
        channel.length = (transformAll effects segment).frames) ∧
      ((transformAll effects segment).isEmpty = true ↔ segment.frames = 0) ∧
      (transformAll effects segment).frames ≤ 64 ^ speedCount effects * segment.frames ∧
      (speedCount effects = 0 → (transformAll effects segment).frames = segment.frames) := by
  have hbounded : ∀ effect ∈ effects, effect.Bounded := by
    intro effect hmem
    obtain ⟨code, parameter, hread⟩ := hcode effect hmem
    exact Effect.bounded_of_ofCode hread
  obtain ⟨hle, hzero⟩ := framesAfterAll_bounds hbounded hframes
  have hbefore : segment.HasShape segment.channelCount segment.frames := ⟨rfl, hshape⟩
  have hafter := hbefore.transformAll_playable fun effect hmem => (hbounded effect hmem).isPlayable
  have hlength : (transformAll effects segment).frames = framesAfterAll segment.frames effects := by
    rcases segment.channelCount.eq_zero_or_pos with hnone | hsome
    · rw [Segment.frames_of_channelCount_eq_zero (hafter.channelCount_eq.trans hnone),
        hzero.mpr (Segment.frames_of_channelCount_eq_zero hnone)]
    · exact hafter.frames_eq hsome
  rw [Segment.isEmpty, hlength, beq_iff_eq]
  exact ⟨hafter.channelCount_eq, hafter.length_eq, hzero, hle,
    fun hspeed => framesAfterAll_of_speedCount_eq_zero hspeed _⟩

/-- Two frames on two channels, stretched as much as speed can and then played at the speed
`10 ^ 300`: one frame is left. -/
theorem transformAll_bounds_slow_and_fast :
    (∀ channel ∈ (⟨[[0, 1], [1, 0]]⟩ : Segment).channels,
      channel.length = (⟨[[0, 1], [1, 0]]⟩ : Segment).frames) ∧
    Effect.ofCode 's' (some (1 / 64)) = .ok (.speed (1 / 64)) ∧
    Effect.ofCode 's' (some (.ofNat (10 ^ 300))) = .ok (.speed (.ofNat (10 ^ 300))) ∧
    Effect.ofCode 'r' none = .ok .reverse ∧
    64 ^ speedCount [.speed (1 / 64), .reverse, .speed (.ofNat (10 ^ 300))] *
      (⟨[[0, 1], [1, 0]]⟩ : Segment).frames ≤ 2 ^ 52 ∧
    (transformAll [.speed (1 / 64), .reverse] ⟨[[0, 1], [1, 0]]⟩).frames = 128 ∧
    (transformAll [.speed (1 / 64), .reverse, .speed (.ofNat (10 ^ 300))]
      ⟨[[0, 1], [1, 0]]⟩).frames = 1 ∧
    (transformAll [.speed (1 / 64), .reverse, .speed (.ofNat (10 ^ 300))]
      ⟨[[0, 1], [1, 0]]⟩).channelCount = 2 ∧
    ¬ (transformAll [.speed (1 / 64), .reverse, .speed (.ofNat (10 ^ 300))]
      ⟨[[0, 1], [1, 0]]⟩).isEmpty = true := by
  have hshape : ∀ channel ∈ (⟨[[0, 1], [1, 0]]⟩ : Segment).channels,
      channel.length = (⟨[[0, 1], [1, 0]]⟩ : Segment).frames := by decide
  have hslow : Effect.ofCode 's' (some (1 / 64)) = .ok (.speed (1 / 64)) := by decide +kernel
  have hfast : Effect.ofCode 's' (some (.ofNat (10 ^ 300))) = .ok (.speed (.ofNat (10 ^ 300))) := by
    decide +kernel
  have hreverse : Effect.ofCode 'r' none = .ok .reverse := by decide +kernel
  have hcode : ∀ effect ∈ [Effect.speed (1 / 64), .reverse, .speed (.ofNat (10 ^ 300))],
      ∃ code parameter, Effect.ofCode code parameter = .ok effect := by
    simp only [List.forall_mem_cons, List.not_mem_nil, false_implies, implies_true, and_true]
    exact ⟨⟨_, _, hslow⟩, ⟨_, _, hreverse⟩, ⟨_, _, hfast⟩⟩
  obtain ⟨hcount, -, hempty, -, -⟩ := transformAll_bounds hshape hcode (by decide)
  exact ⟨hshape, hslow, hfast, hreverse, by decide, by decide +kernel, by decide +kernel, hcount,
    fun h => absurd (hempty.mp h) (by decide)⟩

end Arranger
