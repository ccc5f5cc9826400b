import Arranger.Proofs.Plan.Order
import Arranger.Proofs.Plan.WholeBeats

/-!
# Reordered beats that fill a song

A pattern of the beats number one up to `size` in any order, with any effects and shuffle groups,
fills a song in blocks: each repetition plays the beats that follow those of the one before it, and
the last one leaves out what is behind the last beat.

## Main definitions

* `Arranger.Pattern.Reorders` — the patterns of the beats number one up to a size.
* `Arranger.Song.blockPlans` — the plans of the beats of one repetition, from the first on.
* `Arranger.Song.PlaysInBlocks` — plans that come in blocks, each the beats of a repetition.

## Main results

* `Arranger.collect_of_forall` — what is collected where no state matters.
* `Arranger.Stage.exists_plan_of_forall` — what is planned where no state matters.
* `Arranger.Stage.plan_reorders` — the plans of a pattern that reorders beats, block by block.
* `Arranger.Song.PlaysInBlocks.perm` — plans that come in blocks play each beat once.
-/

namespace Arranger

/-! ## Collecting -/

/-- What is collected where no state matters: if each member has one result in every state, the
results are those of the members. -/
lemma collect_of_forall {α β σ ε : Type} {f : α → σ → Except ε (Option β) × σ}
    {result : α → Option β} {xs : List α}
    (h : ∀ x ∈ xs, ∀ state, ∃ next, f x state = (.ok (result x), next)) (state : σ) :
    (collect f xs state).1 = .ok (xs.filterMap result) := by
  induction xs generalizing state with
  | nil => rfl
  | cons x xs ih =>
    rw [List.forall_mem_cons] at h
    obtain ⟨next, hx⟩ := h.1 state
    have hxs := ih h.2 next
    rw [collect, hx]
    dsimp only
    rw [show collect f xs next = (.ok (xs.filterMap result), _) from Prod.ext hxs rfl]
    cases hresult : result x with
    | none => rw [List.filterMap_cons_none hresult]; rfl
    | some value => rw [List.filterMap_cons_some hresult]; rfl

/-- A list whose members come of others comes of them in the same order. -/
lemma exists_perm_of_perm_map {α β : Type} {f : α → β} {xs : List β} {ys : List α}
    (h : xs.Perm (ys.map f)) : ∃ zs : List α, zs.Perm ys ∧ xs = zs.map f := by
  have hcomp : Relation.Comp (· = List.map f ·) List.Perm xs ys := by
    rwa [List.eq_map_comp_perm]
  obtain ⟨zs, hmap, hperm⟩ := hcomp
  exact ⟨zs, hperm, hmap⟩

/-! ## Patterns of reordered beats -/

/-- The steps of a pattern are the beats number one up to `size` of the song at hand, in some order.
None is sliced, and all count. Which effects they have, whether they are silent and which group they
belong to is left open: beat number `n + 1` is played by `beat n`. -/
structure Pattern.Reorders (pattern : Pattern) (size : ℕ) (beat : ℕ → Beat) : Prop where
  /-- The steps are the beats in some order. -/
  steps : pattern.steps.Perm ((List.range size).map fun n => .single ⟨none, beat n⟩)
  /-- Each beat asks for its number. -/
  ref : ∀ n < size, (beat n).ref = .literal (Binary.ofNat (n + 1))
  /-- No beat is sliced. -/
  slice : ∀ n < size, (beat n).slice = none
  /-- Each beat counts. -/
  counted : ∀ n < size, (beat n).uncounted = false

namespace Pattern.Reorders

variable {pattern : Pattern} {size : ℕ} {beat : ℕ → Beat}

/-- All steps of reordered beats count. -/
lemma size_eq (h : pattern.Reorders size beat) : pattern.size = size := by
  have hcounts : ∀ step ∈ pattern.steps, step.counts = true := by
    intro step hstep
    obtain ⟨n, hn, rfl⟩ := List.mem_map.mp (h.steps.subset hstep)
    have hcounted := h.counted n (List.mem_range.mp hn)
    simp [Step.counts, Step.terms, Term.counts, hcounted]
  rw [Pattern.size, List.filter_eq_self.mpr hcounts, h.steps.length_eq, List.length_map,
    List.length_range]

/-- Reordered beats have no aliases. -/
lemma aliases_eq_nil (h : pattern.Reorders size beat) : pattern.aliases = [] := by
  have hsources : pattern.terms.filterMap Term.source = [] := by
    refine List.filterMap_eq_nil_iff.mpr fun term hmem => ?_
    obtain ⟨step, hstep, hterm⟩ := List.mem_flatMap.mp hmem
    obtain ⟨n, _, rfl⟩ := List.mem_map.mp (h.steps.subset hstep)
    rw [List.mem_singleton.mp hterm]
  rw [aliases, hsources, keepFirst]

end Pattern.Reorders

/-! ## Blocks -/

namespace Song

variable (song : Song) (beat : ℕ → Beat) (size : ℕ)

/-- The plans of the beats of repetition number `k`, from the first on: those of number
`k * size + 1` up to `(k + 1) * size`, as far as the song has them. -/
def blockPlans (k : ℕ) : List Plan :=
  (List.range' (k * size) (min size (song.beatmap.beatCount - k * size))).map fun n =>
    song.markedPlan (beat (n % size)) n

/-- The beats of a repetition in another order make the same plans in another order. -/
lemma filterMap_markedPlan?_perm {order : List ℕ} (horder : order.Perm (List.range size)) (k : ℕ) :
    (order.filterMap fun n => song.markedPlan? (beat n) (k * size + n)).Perm
      (song.blockPlans beat size k) := by
  have hrow := filterMap_range_lt (fun n => song.markedPlan (beat (n % size)) n) (k * size) size
    song.beatmap.beatCount
  rw [blockPlans, ← hrow]
  refine (horder.filterMap _).trans (.of_eq (List.filterMap_congr fun n hn => ?_))
  rw [markedPlan?, Nat.mul_add_mod_self_right, Nat.mod_eq_of_lt (List.mem_range.mp hn)]

/-- Plans that come in blocks, as many as it takes to cover the song: those of block number `k` are
the plans of the beats of repetition number `k`, in some order. -/
def PlaysInBlocks (plans : List Plan) : Prop :=
  ∃ blocks : List (List Plan), plans = blocks.flatten ∧
    blocks.length = song.beatmap.beatCount ⌈/⌉ size ∧
    ∀ (k : ℕ) (hk : k < blocks.length), blocks[k].Perm (song.blockPlans beat size k)

/-- The blocks one after another are the beats of the song, each once and in order. -/
lemma flatMap_blockPlans (hsize : 0 < size) :
    (List.range (song.beatmap.beatCount ⌈/⌉ size)).flatMap (song.blockPlans beat size) =
      (List.range song.beatmap.beatCount).map fun n => song.markedPlan (beat (n % size)) n := by
  set count := song.beatmap.beatCount ⌈/⌉ size with hcount
  have hcover : song.beatmap.beatCount ≤ count * size := by
    rw [Nat.mul_comm, ← ceilDiv_le_iff_le_mul hsize]
  set play : ℕ → Option Plan := fun n =>
    if n < song.beatmap.beatCount then some (song.markedPlan (beat (n % size)) n) else none
    with hplay
  have hblock : ∀ k, song.blockPlans beat size k =
      ((List.range size).map fun n => k * size + n).filterMap play := by
    intro k
    rw [blockPlans, ← filterMap_range_lt (fun n => song.markedPlan (beat (n % size)) n),
      List.filterMap_map]
    rfl
  have hrow := filterMap_range_lt (fun n => song.markedPlan (beat (n % size)) n) 0 (count * size)
    song.beatmap.beatCount
  rw [Nat.sub_zero, min_eq_right hcover, ← List.range_eq_range'] at hrow
  rw [List.flatMap_congr fun k _ => hblock k, ← List.filterMap_flatMap,
    flatMap_range size count fun k n => k * size + n, ← hrow]
  simp only [Nat.div_add_mod', List.map_id', Nat.zero_add]
  rfl

/-- **Plans that come in blocks play each beat of the song once.** -/
lemma PlaysInBlocks.perm {song : Song} {beat : ℕ → Beat} {size : ℕ} {plans : List Plan}
    (h : song.PlaysInBlocks beat size plans) (hsize : 0 < size) :
    plans.Perm
      ((List.range song.beatmap.beatCount).map fun n => song.markedPlan (beat (n % size)) n) := by
  obtain ⟨blocks, rfl, hlength, hblocks⟩ := h
  rw [← song.flatMap_blockPlans beat size hsize, List.flatMap_def]
  refine List.Perm.flatten_congr (List.forall₂_iff_get.mpr ⟨by simp [hlength], fun k hk _ => ?_⟩)
  simpa using hblocks k hk

end Song

/-! ## Planning -/

namespace Stage

variable {stage : Stage}

/-- A song with beats is filled by as many repetitions as it takes. -/
lemma repetitions_eq_ceilDiv (hfill : stage.repetition = .fill)
    (hcount : 0 < stage.primary.beatmap.beatCount) {size : ℕ} (hsize : 0 < size) :
    stage.repetitions size = stage.primary.beatmap.beatCount ⌈/⌉ size := by
  rw [repetitions_of_fill hfill hsize, max_eq_right]
  by_contra hnone
  have hle : stage.primary.beatmap.beatCount ⌈/⌉ size ≤ 0 := by omega
  rw [ceilDiv_le_iff_le_mul hsize] at hle
  omega

/-- **What is planned where no state matters.** Take a pattern whose steps come of the members of a
list. If the cue of each member has one result in each repetition, whatever the cursor is, then the
plans are those results, repetition by repetition in the order of play, which is the same in each. -/
lemma exists_plan_of_forall {α : Type} {pattern : Pattern} {step : α → Step} {xs : List α}
    (hsteps : pattern.steps.Perm (xs.map step)) {result : ℕ → α → Option Plan}
    (h : ∀ k < stage.repetitions pattern.size, ∀ x ∈ xs, ∀ cursor : Cursor, ∃ next,
      stage.planCue ⟨step x, pattern.size, Binary.ofNat (k * pattern.size)⟩ cursor =
        (.ok (result k x), next)) (cursor : Cursor) :
    ∃ order : List α, order.Perm xs ∧ (stage.plan pattern cursor).1 =
      .ok ((List.range (stage.repetitions pattern.size)).flatMap fun k =>
        order.filterMap (result k)) := by
  obtain ⟨order, horder, hplayed⟩ :=
    exists_perm_of_perm_map ((pattern.rearranged_perm cursor.random).trans hsteps)
  have hcues : ∀ place ∈ ((List.range (stage.repetitions pattern.size)).flatMap fun k =>
      order.map fun x => (k, x)), ∀ state : Cursor, ∃ next, stage.planCue
        ⟨step place.2, pattern.size, Binary.ofNat (place.1 * pattern.size)⟩ state =
          (.ok (result place.1 place.2), next) := by
    intro place hplace
    obtain ⟨k, hk, hplace⟩ := List.mem_flatMap.mp hplace
    obtain ⟨x, hx, rfl⟩ := List.mem_map.mp hplace
    exact h k (List.mem_range.mp hk) x (horder.subset hx)
  refine ⟨order, horder, ?_⟩
  show (collect stage.planCue (cues pattern.size (stage.repetitions pattern.size)
    (pattern.rearranged cursor.random).1) _).1 = _
  rw [hplayed, cues_map, collect_map, collect_of_forall hcues, List.filterMap_flatMap]
  simp only [List.filterMap_map, Function.comp_def]

section Reorders

variable (hsong : stage.primary.WellFormed)
  (hlength : stage.primary.beatmap.sourceLength < 2 ^ Format.double.precision)
  (hfill : stage.repetition = .fill) {size : ℕ} (hsize : 0 < size) {pattern : Pattern}
  {beat : ℕ → Beat} (h : pattern.Reorders size beat)

include hsong hlength hfill hsize h

omit hsize in
/-- A cue of a pattern that reorders beats plays the beat that its number and the offset of its
repetition make, if the song has it. -/
lemma planCue_reorders {k n : ℕ} (hk : k < stage.repetitions size) (hn : n < size)
    (cursor : Cursor) :
    stage.planCue ⟨.single ⟨none, beat n⟩, size, Binary.ofNat (k * size)⟩ cursor =
      (.ok (stage.primary.markedPlan? (beat n) (k * size + n)),
        ⟨cursor.random, cursor.position + 1⟩) := by
  refine planCue_single hsong hlength ?_ (by rw [hfill]; rintro ⟨⟩) (h.slice n hn)
  rw [h.ref n hn, resolve_ofNat hsong hlength hfill hk hn]

variable (stage) in
/-- **Reordered beats fill a song block by block.** Each repetition plays, in some order, the beats
that follow those of the repetition before it, up to the last beat of the song.

**Proof sketch.** The shuffle is drawn once, and each repetition plays the same permutation. The
number of a step and the offset of its repetition make the number of its beat. A repetition begins
within the song, so this sum is exact, and the numbers behind the last beat are left out. -/
theorem plan_reorders (hcount : 0 < stage.primary.beatmap.beatCount) (cursor : Cursor) :
    ∃ plans, (stage.plan pattern cursor).1 = .ok plans ∧
      stage.primary.PlaysInBlocks beat size plans := by
  have hcues : ∀ k < stage.repetitions pattern.size, ∀ n ∈ List.range size, ∀ state : Cursor,
      ∃ next, stage.planCue ⟨.single ⟨none, beat n⟩, pattern.size, Binary.ofNat (k * pattern.size)⟩
        state = (.ok (stage.primary.markedPlan? (beat n) (k * size + n)), next) := by
    rw [h.size_eq]
    exact fun k hk n hn state =>
      ⟨_, planCue_reorders hsong hlength hfill h hk (List.mem_range.mp hn) state⟩
  obtain ⟨order, horder, hplans⟩ := exists_plan_of_forall h.steps hcues cursor
  rw [h.size_eq] at hplans
  refine ⟨_, hplans, (List.range (stage.repetitions size)).map fun k =>
    order.filterMap fun n => stage.primary.markedPlan? (beat n) (k * size + n), ?_, ?_, ?_⟩
  · rw [List.flatMap_def]
  · rw [List.length_map, List.length_range, repetitions_eq_ceilDiv hfill hcount hsize]
  · intro k hk
    rw [List.getElem_map, List.getElem_range]
    exact stage.primary.filterMap_markedPlan?_perm beat size horder k

end Reorders

end Stage

end Arranger
