import Arranger.Proofs.Audio.Windows
import Arranger.Proofs.Plan.WholeBeats
import Arranger.Render.Basic

/-!
# Joining whole beats

The beats of a song, performed one after another, are the frames from the first boundary to the
last.

## Main definitions

* `Arranger.Song.stretch` — the frames of a song up to a number of beats.

## Main results

* `Arranger.Song.performAll_beatPlan` — the beats joined are the frames of the song.
-/

namespace Arranger

/-! ## Joining channels -/

/-- Channels that come of the same channels are joined one by one. -/
lemma overlay_append_map {α β : Type} (f g : α → List β) (xs : List α) :
    overlay (· ++ ·) (xs.map f) (xs.map g) = xs.map fun x => f x ++ g x := by
  induction xs with
  | nil => rfl
  | cons x xs ih => rw [List.map_cons, List.map_cons, overlay, ih, List.map_cons]

/-- Segments that come of the same channels are joined channel by channel. -/
lemma Segment.append_map {α : Type} (f g : α → List Sample) (xs : List α) :
    Segment.append ⟨xs.map f⟩ ⟨xs.map g⟩ = ⟨xs.map fun x => f x ++ g x⟩ := by
  cases xs with
  | nil => rfl
  | cons x xs => exact congrArg Segment.mk (overlay_append_map f g (x :: xs))

namespace Song

variable {song : Song}

/-! ## Beats -/

/-- The frames of a song from the first boundary up to the one of a number. -/
def stretch (song : Song) (n : ℕ) : Segment :=
  ⟨song.recording.channels.map fun channel =>
    (channel.drop (song.beatmap.boundary 0)).take
      (song.beatmap.boundary n - song.beatmap.boundary 0)⟩

/-- A whole beat is performed as its frames. -/
lemma perform_beatPlan (h : song.WellFormed) (limiter : Limiter) {k : ℕ}
    (hk : k < song.beatmap.beatCount) :
    (song.beatPlan k).perform limiter song.recording.channelCount =
      ⟨song.recording.channels.map fun channel => (channel.drop (song.beatmap.boundary k)).take
        (song.beatmap.boundary (k + 1) - song.beatmap.boundary k)⟩ := by
  have hend : song.beatmap.boundary (k + 1) ≤ song.recording.frames :=
    h.sourceLength_eq ▸ h.beatmap.boundary_le (k + 1)
  have hrising := (h.beatmap.boundary_lt hk).le
  show (song.recording.window _ _).conform _ = _
  rw [Recording.window, min_eq_left hend, min_eq_left hrising]
  exact if_pos (.inl (List.length_map _))

/-- **The beats of a song joined are its frames** up to the last of the beats. -/
lemma performAll_beatPlan (h : song.WellFormed) (limiter : Limiter) {n : ℕ}
    (hn : n ≤ song.beatmap.beatCount) :
    performAll limiter song.recording.channelCount ((List.range n).map song.beatPlan) =
      song.stretch n := by
  induction n with
  | zero =>
    show Segment.silent _ 0 = _
    simp [Segment.silent, stretch, Recording.channelCount]
  | succ n ih =>
    have hbefore := ih (by omega)
    unfold performAll at hbefore ⊢
    rw [List.range_succ, List.map_append, List.map_singleton, List.foldl_append, hbefore,
      List.foldl_cons, List.foldl_nil, perform_beatPlan h limiter (by omega), stretch,
      Segment.append_map, stretch]
    congr 1
    refine List.map_congr_left fun channel _ => ?_
    exact take_drop_append channel (h.beatmap.boundary_mono (Nat.zero_le n) (by omega))
      (h.beatmap.boundary_lt (by omega)).le

end Song

end Arranger
