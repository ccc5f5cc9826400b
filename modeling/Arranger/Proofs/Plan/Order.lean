import Mathlib.Data.List.Nodup
import Mathlib.Data.List.Perm.Basic
import Arranger.Plan.Order
import Arranger.Proofs.Plan.Tiling

/-!
# The order of play is a permutation

Shuffling the members of each group over the slots of the group loses no step and plays none
twice, whatever the random words are.

## Main results

* `Arranger.Stream.shuffle_perm` — a shuffled list has the same members.
* `Arranger.perm_of_agree` — when members over distinct places make a permutation.
* `Arranger.map_shuffleGroups_perm` — the slots of a group are mapped onto themselves.
* `Arranger.Pattern.slots_groups` — each step with a group is a slot of one group, once.
* `Arranger.Pattern.rearranged_perm` — the steps in the order of play are the steps.
-/

namespace Arranger

/-! ## Shuffling -/

/-- Two members exchanged are the same members. -/
lemma exchange_perm {α : Type} (i j : ℕ) (xs : List α) : (exchange i j xs).Perm xs := by
  unfold exchange
  split
  · next x y hx hy =>
    obtain ⟨hi, rfl⟩ := List.getElem?_eq_some_iff.mp hx
    obtain ⟨hj, rfl⟩ := List.getElem?_eq_some_iff.mp hy
    exact List.set_set_perm hi hj
  · exact .refl xs

namespace Stream

/-- The exchanges of a shuffle keep the members. -/
lemma shuffleFrom_perm {α : Type} (n : ℕ) (xs : List α) (stream : Stream) :
    (shuffleFrom n xs stream).1.Perm xs := by
  induction n generalizing xs stream with
  | zero => exact .refl xs
  | succ n ih => exact (ih _ _).trans (exchange_perm _ _ _)

/-- **A shuffled list has the same members.** -/
lemma shuffle_perm {α : Type} (xs : List α) (stream : Stream) : (stream.shuffle xs).1.Perm xs :=
  shuffleFrom_perm _ _ _

end Stream

/-! ## Members over places -/

section Places

variable {order members : List ℕ} {placed : List (ℕ × ℕ)}

/-- New members at some places leave the length as it is. -/
lemma length_placeAll (order : List ℕ) (placed : List (ℕ × ℕ)) :
    (placeAll order placed).length = order.length := by
  induction placed generalizing order with
  | nil => rfl
  | cons place placed ih => exact (ih _).trans List.length_set

/-- A place that gets no new member keeps its own. -/
lemma getElem?_placeAll_of_not_mem {i : ℕ} (h : i ∉ placed.map Prod.fst) :
    (placeAll order placed)[i]? = order[i]? := by
  induction placed generalizing order with
  | nil => rfl
  | cons place placed ih =>
    rw [List.map_cons, List.mem_cons, not_or] at h
    exact (ih h.2).trans (List.getElem?_set_ne (Ne.symm h.1))

/-- Distinct places have their new members. -/
lemma map_getElem?_placeAll {slots : List ℕ} (hlength : slots.length = members.length)
    (hnodup : slots.Nodup) (hbound : ∀ slot ∈ slots, slot < order.length) :
    slots.map ((placeAll order (slots.zip members))[·]?) = members.map some := by
  induction slots generalizing order members with
  | nil => rw [List.length_eq_zero_iff.mp hlength.symm]; rfl
  | cons slot slots ih =>
    obtain ⟨member, members, rfl⟩ := List.exists_cons_of_length_eq_add_one hlength.symm
    rw [List.nodup_cons] at hnodup
    rw [List.forall_mem_cons] at hbound
    rw [List.length_cons, List.length_cons, Nat.add_right_cancel_iff] at hlength
    have hlater : slot ∉ (slots.zip members).map Prod.fst := by
      rw [List.map_fst_zip (Nat.le_of_eq hlength)]
      exact hnodup.1
    rw [List.zip_cons_cons, List.map_cons, List.map_cons]
    refine congrArg₂ List.cons ?_ (ih hlength hnodup.2 (by simpa using hbound.2))
    exact (getElem?_placeAll_of_not_mem hlater).trans (List.getElem?_set_self hbound.1)

end Places

/-- **When members over distinct places make a permutation**: the places outside keep their
members, and those inside have the same ones in some order.

**Proof sketch.** The places of a list are those inside and those outside, in some order, and the
list is what stands at its places. -/
lemma perm_of_agree {α : Type} {xs ys : List α} {slots : List ℕ} (hnodup : slots.Nodup)
    (hbound : ∀ slot ∈ slots, slot < xs.length) (hlength : ys.length = xs.length)
    (houtside : ∀ i ∉ slots, ys[i]? = xs[i]?)
    (hinside : (slots.map (ys[·]?)).Perm (slots.map (xs[·]?))) : ys.Perm xs := by
  set rest := (List.range xs.length).filter (· ∉ slots) with hrest
  have hplaces : (List.range xs.length).Perm (slots ++ rest) := by
    refine (List.perm_ext_iff_of_nodup List.nodup_range ?_).mpr fun i => ?_
    · refine hnodup.append (List.nodup_range.filter _) fun i hi hi' => ?_
      simp [hrest, hi] at hi'
    · by_cases hi : i ∈ slots
      · simpa [hi] using hbound i hi
      · simp [hrest, hi]
  have hsplit : ∀ zs : List α, zs.length = xs.length →
      zs.Perm ((slots.map (zs[·]?)).filterMap id ++ rest.filterMap (zs[·]?)) := by
    intro zs hzs
    have hall := (hplaces.filterMap (zs[·]?)).symm
    rw [← hzs, filterMap_getElem?, List.filterMap_append] at hall
    rw [List.filterMap_map]
    exact hall.symm
  have hrestEq : rest.filterMap (ys[·]?) = rest.filterMap (xs[·]?) :=
    List.filterMap_congr fun i hi => houtside i (by simpa [hrest] using (List.mem_filter.mp hi).2)
  refine (hsplit ys hlength).trans (.trans ?_ (hsplit xs rfl).symm)
  rw [hrestEq]
  exact (hinside.filterMap id).append_right _

/-! ## Groups -/

/-- One more slot is a slot of some group. -/
lemma slots_addSlot (name : String) (slot : ℕ) (groups : List ShuffleGroup) :
    ((addSlot name slot groups).flatMap ShuffleGroup.slots).Perm
      (groups.flatMap ShuffleGroup.slots ++ [slot]) := by
  induction groups with
  | nil => exact .refl _
  | cons group groups ih =>
    rw [addSlot]
    split_ifs
    · simp only [List.flatMap_cons, List.append_assoc]
      exact List.perm_append_comm.append_left group.slots
    · simp only [List.flatMap_cons, List.append_assoc]
      exact ih.append_left group.slots

/-- The slots of steps with a group, where the first step has the given one. -/
def groupedSlots (slot : ℕ) (steps : List Step) : List ℕ :=
  ((steps.zipIdx slot).filter fun step => step.1.group?.isSome).map Prod.snd

/-- The steps with a group join one, each with its slot. -/
lemma slots_joinGroups (groups : List ShuffleGroup) (slot : ℕ) (steps : List Step) :
    ((joinGroups groups slot steps).flatMap ShuffleGroup.slots).Perm
      (groups.flatMap ShuffleGroup.slots ++ groupedSlots slot steps) := by
  induction steps generalizing groups slot with
  | nil => simp [joinGroups, groupedSlots]
  | cons step steps ih =>
    rw [joinGroups]
    cases hgroup : step.group? with
    | none => simpa [groupedSlots, hgroup] using ih groups (slot + 1)
    | some name =>
      have hjoined := (ih (addSlot name slot groups) (slot + 1)).trans
        ((slots_addSlot name slot groups).append_right _)
      simpa [groupedSlots, hgroup] using hjoined

namespace Pattern

/-- **Each step with a group is a slot of one group, once.** -/
lemma slots_groups (pattern : Pattern) :
    (pattern.groups.flatMap ShuffleGroup.slots).Perm (groupedSlots 0 pattern.steps) :=
  slots_joinGroups [] 0 pattern.steps

/-- No slot belongs to two groups or to one group twice. -/
lemma nodup_slots (pattern : Pattern) : (pattern.groups.flatMap ShuffleGroup.slots).Nodup := by
  have hsublist : (groupedSlots 0 pattern.steps).Sublist (List.range pattern.steps.length) := by
    rw [List.range_eq_range', ← List.zipIdx_map_snd 0 pattern.steps]
    exact List.filter_sublist.map _
  exact pattern.slots_groups.nodup_iff.mpr (List.nodup_range.sublist hsublist)

/-- The slots are places of steps. -/
lemma slot_lt (pattern : Pattern) {slot : ℕ}
    (h : slot ∈ pattern.groups.flatMap ShuffleGroup.slots) : slot < pattern.steps.length := by
  obtain ⟨step, hstep, rfl⟩ := List.mem_map.mp (pattern.slots_groups.subset h)
  have := List.snd_lt_of_mem_zipIdx (List.mem_of_mem_filter hstep)
  omega

end Pattern

/-! ## The order of play -/

section Groups

variable {group : ShuffleGroup} {groups : List ShuffleGroup} {order : List ℕ} {stream : Stream}

/-- Shuffling groups leaves the length as it is. -/
lemma length_shuffleGroups : (shuffleGroups groups order stream).1.length = order.length := by
  induction groups generalizing order stream with
  | nil => rfl
  | cons group groups ih => exact ih.trans (length_placeAll _ _)

/-- What is in no group stays where it is. -/
lemma getElem?_shuffleGroups {i : ℕ} (h : i ∉ groups.flatMap ShuffleGroup.slots) :
    (shuffleGroups groups order stream).1[i]? = order[i]? := by
  induction groups generalizing order stream with
  | nil => rfl
  | cons group groups ih =>
    rw [List.flatMap_cons, List.mem_append, not_or] at h
    have hkept : i ∉ (group.slots.zip (stream.shuffle group.slots).1).map Prod.fst := by
      rw [List.map_fst_zip (Nat.le_of_eq (Stream.shuffle_perm _ stream).length_eq.symm)]
      exact h.1
    exact (ih h.2).trans (getElem?_placeAll_of_not_mem hkept)

/-- **The slots of a group are mapped onto themselves**, where no slot is in two groups.

**Proof sketch.** The group puts its slots in some order over its slots, and the groups behind it
leave them alone. -/
lemma map_shuffleGroups_perm (hnodup : (groups.flatMap ShuffleGroup.slots).Nodup)
    (hbound : ∀ slot ∈ groups.flatMap ShuffleGroup.slots, slot < order.length)
    (hgroup : group ∈ groups) :
    (group.slots.map ((shuffleGroups groups order stream).1[·]?)).Perm (group.slots.map some) := by
  induction groups generalizing order stream with
  | nil => cases hgroup
  | cons first groups ih =>
    rw [List.flatMap_cons] at hnodup hbound
    obtain ⟨hfirst, hgroups, hdisjoint⟩ := List.nodup_append'.mp hnodup
    rw [shuffleGroups]
    rcases List.mem_cons.mp hgroup with rfl | hgroup
    · have hshuffle := Stream.shuffle_perm group.slots stream
      have hplaced := map_getElem?_placeAll hshuffle.length_eq.symm hfirst
        fun slot hslot => hbound slot (List.mem_append_left _ hslot)
      rw [List.map_congr_left fun slot hslot => getElem?_shuffleGroups (hdisjoint hslot), hplaced]
      exact hshuffle.map some
    · refine ih hgroups (fun slot hslot => ?_) hgroup
      rw [length_placeAll]
      exact hbound slot (List.mem_append_right _ hslot)

/-- **Shuffling groups with slots of their own gives a permutation.** -/
lemma shuffleGroups_perm (hnodup : (groups.flatMap ShuffleGroup.slots).Nodup)
    (hown : ∀ slot ∈ groups.flatMap ShuffleGroup.slots, order[slot]? = some slot) :
    (shuffleGroups groups order stream).1.Perm order := by
  have hbound : ∀ slot ∈ groups.flatMap ShuffleGroup.slots, slot < order.length :=
    fun slot hslot => (List.getElem?_eq_some_iff.mp (hown slot hslot)).1
  refine perm_of_agree hnodup hbound length_shuffleGroups (fun i hi => getElem?_shuffleGroups hi) ?_
  rw [List.map_congr_left hown, List.map_flatMap, List.map_flatMap]
  exact .flatMap_left _ fun group hgroup => map_shuffleGroups_perm hnodup hbound hgroup

end Groups

namespace Pattern

/-- The order of play is a permutation of the indices. -/
lemma playOrder_perm (pattern : Pattern) (stream : Stream) :
    (pattern.playOrder stream).1.Perm (List.range pattern.steps.length) := by
  refine shuffleGroups_perm pattern.nodup_slots fun slot hslot => ?_
  rw [List.getElem?_range (pattern.slot_lt hslot)]

/-- **The steps in the order of play are the steps**, each as often as it is written. -/
theorem rearranged_perm (pattern : Pattern) (stream : Stream) :
    (pattern.rearranged stream).1.Perm pattern.steps := by
  have hperm := (pattern.playOrder_perm stream).filterMap fun index => pattern.steps[index]?
  rwa [filterMap_getElem?] at hperm

/-- A cue of a pattern plays one of its steps. -/
lemma step_mem_of_mem_cues {pattern : Pattern} {stream : Stream} {cue : Cue} {size count : ℕ}
    (h : cue ∈ Stage.cues size count (pattern.rearranged stream).1) : cue.step ∈ pattern.steps := by
  obtain ⟨k, -, hcue⟩ := List.mem_flatMap.mp h
  obtain ⟨step, hstep, rfl⟩ := List.mem_map.mp hcue
  exact (pattern.rearranged_perm stream).subset hstep

end Pattern

end Arranger
