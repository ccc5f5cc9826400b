import Arranger.Pattern.Basic
import Mathlib.Data.List.Basic
import Mathlib.Data.List.Nodup

/-!
# The table of shuffle groups

The table of groups of a pattern has the names of its steps in order of their first appearance, and
for each name the slots of the steps with that name, in written order. So the table of steps that
follow others is known from the tables of both, and a step without a group that is put between
others only shifts their slots.

## Main definitions

* `Arranger.slotsNamed` — the slots that a table has for a name.
* `Arranger.slotsFrom`, `Pattern.slotsOf` — the slots of the steps in a group.
* `Arranger.groupTable` — the table of names with slots.
* `Arranger.joinTables` — two tables in one.
* `Arranger.shiftFrom` — the slot of a step after another one was put at a place.

## Main results

* `Arranger.slotsNamed_joinGroups` — the steps of a group join it with their slots.
* `Arranger.Pattern.groups_eq` — the table of groups as names with slots.
* `Arranger.keepFirst_pairwise_slotsFrom` — the names are in order of their first slots.
* `Arranger.Pattern.groups_append` — the table of groups of steps that follow others.
* `Arranger.Pattern.groups_insertIdx` — the table of groups of steps with another between them.
-/

namespace Arranger

/-! ## The slots of a name -/

/-- The slots that a table of groups has for a name. -/
def slotsNamed (name : String) (groups : List ShuffleGroup) : List ℕ :=
  ((groups.find? fun group => group.name = name).map ShuffleGroup.slots).getD []

/-- The slots of the steps in a group of a name, where the first step has the given one. -/
def slotsFrom (name : String) (slot : ℕ) (steps : List Step) : List ℕ :=
  ((steps.zipIdx slot).filter fun step => step.1.group? = some name).map Prod.snd

/-- One more slot is one of the group that it joins. -/
lemma slotsNamed_addSlot (name other : String) (slot : ℕ) (groups : List ShuffleGroup) :
    slotsNamed name (addSlot other slot groups) =
      slotsNamed name groups ++ if other = name then [slot] else [] := by
  induction groups with
  | nil =>
    by_cases heq : other = name
    · simp [slotsNamed, addSlot, heq]
    · simp [slotsNamed, addSlot, heq]
  | cons group groups ih =>
    rw [addSlot]
    by_cases hother : group.name = other
    · by_cases heq : other = name
      · simp [slotsNamed, hother, heq]
      · simp [slotsNamed, hother, heq]
    · rw [if_neg hother]
      by_cases hname : group.name = name
      · have hne : other ≠ name := fun heq => hother (hname.trans heq.symm)
        simp [slotsNamed, hname, hne]
      · simpa [slotsNamed, hname] using ih

/-- The slot of the first step is one of its group. -/
lemma slotsFrom_cons (name : String) (slot : ℕ) (step : Step) (steps : List Step) :
    slotsFrom name slot (step :: steps) =
      (if step.group? = some name then [slot] else []) ++ slotsFrom name (slot + 1) steps := by
  by_cases hgroup : step.group? = some name
  · simp [slotsFrom, hgroup]
  · simp [slotsFrom, hgroup]

/-- The slots of steps are counted on behind other steps. -/
lemma slotsFrom_append (name : String) (slot : ℕ) (steps others : List Step) :
    slotsFrom name slot (steps ++ others) =
      slotsFrom name slot steps ++ slotsFrom name (slot + steps.length) others := by
  simp [slotsFrom, List.zipIdx_append]

/-- Slots that start elsewhere are moved by as much. -/
lemma slotsFrom_add (name : String) (slot count : ℕ) (steps : List Step) :
    slotsFrom name (slot + count) steps = (slotsFrom name slot steps).map (· + count) := by
  induction steps generalizing slot with
  | nil => rfl
  | cons step steps ih =>
    rw [slotsFrom_cons, slotsFrom_cons, List.map_append, ← ih, Nat.add_right_comm]
    split_ifs
    · rfl
    · rfl

/-- No slot of steps comes before the first one. -/
lemma le_of_mem_slotsFrom {name : String} {slot other : ℕ} {steps : List Step}
    (h : other ∈ slotsFrom name slot steps) : slot ≤ other := by
  obtain ⟨step, hstep, rfl⟩ := List.mem_map.mp h
  exact List.le_snd_of_mem_zipIdx (List.mem_of_mem_filter hstep)

/-- The steps of a group join it with their slots. -/
lemma slotsNamed_joinGroups (name : String) (groups : List ShuffleGroup) (slot : ℕ)
    (steps : List Step) :
    slotsNamed name (joinGroups groups slot steps) =
      slotsNamed name groups ++ slotsFrom name slot steps := by
  induction steps generalizing groups slot with
  | nil => simp [joinGroups, slotsFrom]
  | cons step steps ih =>
    rw [joinGroups, slotsFrom_cons]
    cases hgroup : step.group? with
    | none => exact ih groups (slot + 1)
    | some other =>
      refine (ih (addSlot other slot groups) (slot + 1)).trans ?_
      rw [slotsNamed_addSlot, List.append_assoc]
      simp only [Option.some.injEq]

/-! ## The names of the groups -/

/-- Only which names occurred before decides on what is left. -/
lemma keepFirst_eq_filter (seen names : List String) :
    keepFirst seen names = (keepFirst [] names).filter (· ∉ seen) := by
  induction names generalizing seen with
  | nil => rfl
  | cons name names ih =>
    have hfirst : keepFirst [] (name :: names) =
        name :: (keepFirst [] names).filter (· ∉ [name]) := by
      rw [keepFirst, if_neg List.not_mem_nil, ih [name]]
    rw [keepFirst, hfirst]
    by_cases hseen : name ∈ seen
    · rw [if_pos hseen, ih seen, List.filter_cons_of_neg (by simpa using hseen), List.filter_filter]
      refine List.filter_congr fun other _ => ?_
      by_cases hother : other = name
      · simp [hother, hseen]
      · simp [hother]
    · rw [if_neg hseen, ih (name :: seen), List.filter_cons_of_pos (by simpa using hseen),
        List.filter_filter]
      simp [Bool.and_comm, not_or]

/-- It does not matter in which order the names occurred before, nor how often. -/
lemma keepFirst_congr {seen seen' : List String} (h : ∀ name, name ∈ seen ↔ name ∈ seen')
    (names : List String) : keepFirst seen names = keepFirst seen' names := by
  rw [keepFirst_eq_filter, keepFirst_eq_filter seen']
  exact List.filter_congr fun name _ => by simp [h name]

/-- Which names are kept: those that did not occur before. -/
lemma mem_keepFirst {name : String} {seen names : List String} :
    name ∈ keepFirst seen names ↔ name ∈ names ∧ name ∉ seen := by
  induction names generalizing seen with
  | nil => simp [keepFirst]
  | cons first names ih =>
    rw [keepFirst]
    split_ifs with hseen
    · rw [ih, List.mem_cons]
      constructor
      · exact fun ⟨hmem, hnew⟩ => ⟨.inr hmem, hnew⟩
      · rintro ⟨rfl | hmem, hnew⟩
        · exact absurd hseen hnew
        · exact ⟨hmem, hnew⟩
    · rw [List.mem_cons, List.mem_cons, ih, List.mem_cons, not_or]
      by_cases heq : name = first
      · simp [heq, hseen]
      · simp [heq]

/-- Names behind others are left if they do not occur among them. -/
lemma keepFirst_append (seen names others : List String) :
    keepFirst seen (names ++ others) =
      keepFirst seen names ++ keepFirst (seen ++ names) others := by
  induction names generalizing seen with
  | nil => simp [keepFirst]
  | cons name names ih =>
    rw [List.cons_append, keepFirst, keepFirst]
    split_ifs with hname
    · have hseen : ∀ other, other ∈ seen ++ names ↔ other ∈ seen ++ name :: names := by
        intro other
        by_cases hother : other = name
        · simp [hother, hname]
        · simp [hother]
      rw [ih, keepFirst_congr hseen]
    · have hseen : ∀ other, other ∈ name :: seen ++ names ↔ other ∈ seen ++ name :: names := by
        intro other
        simp [or_left_comm]
      rw [ih, keepFirst_congr hseen, List.cons_append]

/-! ## The table -/

/-- The table of groups with the given names and their slots. -/
def groupTable (names : List String) (slots : String → List ℕ) : List ShuffleGroup :=
  names.map fun name => ⟨name, slots name⟩

/-- One more slot joins the group of its name, which is a new one behind the others if there is none
of that name. -/
lemma addSlot_groupTable {names : List String} (hnodup : names.Nodup) {slots : String → List ℕ}
    {name : String} (hslots : name ∉ names → slots name = []) (slot : ℕ) :
    addSlot name slot (groupTable names slots) =
      groupTable (names ++ keepFirst names [name])
        fun other => slots other ++ if name = other then [slot] else [] := by
  induction names with
  | nil => simp [groupTable, addSlot, keepFirst, hslots]
  | cons first names ih =>
    rw [List.nodup_cons] at hnodup
    have hother : ∀ other ∈ names, first = name → name ≠ other := by
      rintro other hmem rfl rfl
      exact hnodup.1 hmem
    rw [groupTable, List.map_cons, addSlot]
    by_cases hfirst : first = name
    · have hrest : ∀ other ∈ names, (⟨other, slots other⟩ : ShuffleGroup) =
          ⟨other, slots other ++ if name = other then [slot] else []⟩ := by
        intro other hmem
        rw [if_neg (hother other hmem hfirst), List.append_nil]
      rw [if_pos hfirst, List.map_congr_left hrest]
      simp [groupTable, keepFirst, hfirst]
    · have hlater : keepFirst (first :: names) [name] = keepFirst names [name] := by
        simp [keepFirst, Ne.symm hfirst]
      have hrest := ih hnodup.2 fun hmem => hslots (by simp [Ne.symm hfirst, hmem])
      rw [if_neg hfirst, hlater, List.cons_append, groupTable, List.map_cons,
        if_neg (Ne.symm hfirst), List.append_nil]
      exact congrArg _ hrest

/-- No name is left twice, nor one that occurred before. -/
lemma nodup_append_keepFirst {seen : List String} (h : seen.Nodup) (names : List String) :
    (seen ++ keepFirst seen names).Nodup := by
  have hkept : (keepFirst [] names).Nodup := by
    induction names with
    | nil => exact .nil
    | cons name names ih =>
      rw [keepFirst, if_neg List.not_mem_nil, keepFirst_eq_filter]
      exact List.nodup_cons.mpr ⟨by simp, ih.filter _⟩
  rw [keepFirst_eq_filter]
  refine h.append (hkept.filter _) fun name hseen hname => ?_
  simp [hseen] at hname

/-- **Steps join the groups of a table**, and new groups follow in order of their first slot. -/
lemma joinGroups_groupTable {names : List String} (hnodup : names.Nodup)
    {slots : String → List ℕ} (hslots : ∀ name ∉ names, slots name = []) (slot : ℕ)
    (steps : List Step) :
    joinGroups (groupTable names slots) slot steps =
      groupTable (names ++ keepFirst names (steps.filterMap Step.group?))
        fun name => slots name ++ slotsFrom name slot steps := by
  induction steps generalizing names slots slot with
  | nil => simp [joinGroups, keepFirst, slotsFrom]
  | cons step steps ih =>
    rw [joinGroups]
    cases hgroup : step.group? with
    | none =>
      rw [List.filterMap_cons_none hgroup]
      simpa [slotsFrom_cons, hgroup] using ih hnodup hslots (slot + 1)
    | some name =>
      have hseen : ∀ other, other ∈ names ++ keepFirst names [name] ↔ other ∈ names ++ [name] := by
        intro other
        by_cases hname : name ∈ names
        · by_cases hother : other = name
          · simp [hother, hname]
          · simp [keepFirst, hname, hother]
        · simp [keepFirst, hname]
      have hnames : keepFirst names (name :: steps.filterMap Step.group?) =
          keepFirst names [name] ++
            keepFirst (names ++ keepFirst names [name]) (steps.filterMap Step.group?) := by
        rw [keepFirst_congr hseen, ← keepFirst_append, List.singleton_append]
      have hnone : ∀ other ∉ names ++ keepFirst names [name],
          (slots other ++ if name = other then [slot] else []) = [] := by
        intro other hother
        rw [hseen, List.mem_append, List.mem_singleton, not_or] at hother
        rw [hslots other hother.1, if_neg (Ne.symm hother.2), List.append_nil]
      have hjoined := ih (nodup_append_keepFirst hnodup [name]) hnone (slot + 1)
      rw [List.filterMap_cons_some hgroup, hnames, ← List.append_assoc]
      rw [← addSlot_groupTable hnodup (hslots name)] at hjoined
      simpa [slotsFrom_cons, hgroup] using hjoined

namespace Pattern

/-- The slots of the steps in the group of a name, in written order. -/
def slotsOf (pattern : Pattern) (name : String) : List ℕ :=
  slotsFrom name 0 pattern.steps

/-- The names of the groups, in order of their first appearance. -/
def groupNames (pattern : Pattern) : List String :=
  keepFirst [] (pattern.steps.filterMap Step.group?)

/-- **The table of groups has each name once**, in order of its first appearance, with the slots of
the steps of that name. -/
lemma groups_eq (pattern : Pattern) :
    pattern.groups = groupTable pattern.groupNames pattern.slotsOf :=
  joinGroups_groupTable List.nodup_nil (fun _ _ => rfl) 0 pattern.steps

/-- The names of the groups are those of the steps. -/
lemma mem_groupNames {pattern : Pattern} {name : String} :
    name ∈ pattern.groupNames ↔ ∃ step ∈ pattern.steps, step.group? = some name := by
  simp [groupNames, mem_keepFirst, List.mem_filterMap]

/-- A name of no group has no slots. -/
lemma slotsOf_eq_nil {pattern : Pattern} {name : String} (h : name ∉ pattern.groupNames) :
    pattern.slotsOf name = [] := by
  rw [slotsOf, slotsFrom, List.map_eq_nil_iff, List.filter_eq_nil_iff]
  intro step hstep hgroup
  exact h (mem_groupNames.mpr ⟨step.1, List.fst_mem_of_mem_zipIdx hstep, by simpa using hgroup⟩)

end Pattern

/-! ## The order of the table -/

/-- The slots of a group rise. -/
lemma slotsFrom_pairwise (name : String) (slot : ℕ) (steps : List Step) :
    (slotsFrom name slot steps).Pairwise (· < ·) := by
  have hall : ((steps.zipIdx slot).map Prod.snd).Pairwise (· < ·) := by
    rw [List.zipIdx_map_snd]
    exact List.pairwise_lt_range'
  exact hall.sublist (List.filter_sublist.map _)

/-- **The names of the groups are in order of their first slots**: a slot of the one is in front of all
slots of a later one.

**Proof sketch.** By induction on the steps. The first step has a slot in front of all others, and its
group, if it has one, is the first. -/
lemma keepFirst_pairwise_slotsFrom (slot : ℕ) (steps : List Step) :
    (keepFirst [] (steps.filterMap Step.group?)).Pairwise fun name later =>
      ∃ first ∈ slotsFrom name slot steps, ∀ other ∈ slotsFrom later slot steps, first < other := by
  induction steps generalizing slot with
  | nil => exact .nil
  | cons step steps ih =>
    have hrest := ih (slot + 1)
    cases hgroup : step.group? with
    | none =>
      rw [List.filterMap_cons_none hgroup]
      simpa [slotsFrom_cons, hgroup] using hrest
    | some name =>
      have hother : ∀ other, other ≠ name →
          slotsFrom other slot (step :: steps) = slotsFrom other (slot + 1) steps := by
        intro other hne
        rw [slotsFrom_cons, if_neg (by simpa [hgroup] using hne.symm), List.nil_append]
      rw [List.filterMap_cons_some hgroup, keepFirst, if_neg List.not_mem_nil, keepFirst_eq_filter]
      refine List.pairwise_cons.mpr ⟨fun later hlater => ⟨slot, ?_, fun other hmem => ?_⟩, ?_⟩
      · rw [slotsFrom_cons, if_pos hgroup]
        exact List.mem_append_left _ (List.mem_singleton_self slot)
      · have hne : later ≠ name := by simpa using (List.mem_filter.mp hlater).2
        rw [hother later hne] at hmem
        exact le_of_mem_slotsFrom hmem
      · refine (hrest.filter _).imp_of_mem fun {name' later} hname' hlater hbefore => ?_
        have hne : name' ≠ name := by simpa using (List.mem_filter.mp hname').2
        have hne' : later ≠ name := by simpa using (List.mem_filter.mp hlater).2
        rwa [hother name' hne, hother later hne']

/-- The slots of a group are the places of its steps. -/
lemma Pattern.mem_slotsOf {pattern : Pattern} {name : String} {slot : ℕ} :
    slot ∈ pattern.slotsOf name ↔
      ∃ step, pattern.steps[slot]? = some step ∧ step.group? = some name := by
  rw [slotsOf, slotsFrom, List.mem_map]
  constructor
  · rintro ⟨⟨step, slot⟩, hmem, rfl⟩
    obtain ⟨hplace, hgroup⟩ := List.mem_filter.mp hmem
    exact ⟨step, List.mem_zipIdx_iff_getElem?.mp hplace, by simpa using hgroup⟩
  · rintro ⟨step, hplace, hgroup⟩
    exact ⟨(step, slot), List.mem_filter.mpr ⟨List.mem_zipIdx_iff_getElem?.mpr hplace,
      by simpa using hgroup⟩, rfl⟩

/-! ## Tables of steps that follow others -/

/-- The group with other slots in the place of its own. -/
def ShuffleGroup.mapSlots (f : ℕ → ℕ) (group : ShuffleGroup) : ShuffleGroup :=
  { group with slots := group.slots.map f }

/-- Two tables in one: the slots of the second join the groups of the first with the same names, and
the groups of the second with new names follow. -/
def joinTables (groups others : List ShuffleGroup) : List ShuffleGroup :=
  groups.map (fun group => { group with slots := group.slots ++ slotsNamed group.name others }) ++
    others.filter fun other => other.name ∉ groups.map ShuffleGroup.name

/-- The slots of a table of names with slots. -/
lemma slotsNamed_groupTable (name : String) (names : List String) (slots : String → List ℕ) :
    slotsNamed name (groupTable names slots) = if name ∈ names then slots name else [] := by
  induction names with
  | nil => rfl
  | cons first names ih =>
    by_cases hfirst : first = name
    · simp [slotsNamed, groupTable, hfirst]
    · simpa [slotsNamed, groupTable, hfirst, Ne.symm hfirst] using ih

/-- Other slots in a table are other slots for each name. -/
lemma map_mapSlots_groupTable (f : ℕ → ℕ) (names : List String) (slots : String → List ℕ) :
    (groupTable names slots).map (ShuffleGroup.mapSlots f) =
      groupTable names fun name => (slots name).map f := by
  rw [groupTable, List.map_map]
  rfl

/-- Two tables of names with slots in one. -/
lemma joinTables_groupTable (names others : List String) (slots slots' : String → List ℕ)
    (hslots' : ∀ name ∉ others, slots' name = []) :
    joinTables (groupTable names slots) (groupTable others slots') =
      groupTable names (fun name => slots name ++ slots' name) ++
        groupTable (others.filter (· ∉ names)) slots' := by
  have hnames : (groupTable names slots).map ShuffleGroup.name = names := by
    rw [groupTable, List.map_map]
    exact List.map_id _
  have hslots : ∀ name, slotsNamed name (groupTable others slots') = slots' name := by
    intro name
    rw [slotsNamed_groupTable]
    split_ifs with hname
    · rfl
    · exact (hslots' name hname).symm
  rw [joinTables, hnames]
  refine congrArg₂ _ ?_ ?_
  · simp only [hslots]
    rw [groupTable, List.map_map]
    rfl
  · rw [groupTable, List.filter_map]
    rfl

/-- **The table of groups of steps that follow others** is joined of the tables of both, where the
slots of the second are moved behind the steps of the first. -/
lemma Pattern.groups_append (pattern other : Pattern) :
    groups ⟨pattern.steps ++ other.steps⟩ =
      joinTables pattern.groups
        (other.groups.map (ShuffleGroup.mapSlots (· + pattern.steps.length))) := by
  have hslots : ∀ name, slotsOf ⟨pattern.steps ++ other.steps⟩ name =
      pattern.slotsOf name ++ (other.slotsOf name).map (· + pattern.steps.length) := fun name => by
    rw [slotsOf, slotsFrom_append, slotsFrom_add]
    rfl
  have hnames : groupNames ⟨pattern.steps ++ other.steps⟩ =
      pattern.groupNames ++ other.groupNames.filter (· ∉ pattern.groupNames) := by
    have hnew : keepFirst (pattern.steps.filterMap Step.group?)
        (other.steps.filterMap Step.group?) = keepFirst pattern.groupNames
          (other.steps.filterMap Step.group?) :=
      keepFirst_congr (fun name => by simp [groupNames, mem_keepFirst]) _
    rw [groupNames, List.filterMap_append, keepFirst_append, List.nil_append, hnew,
      keepFirst_eq_filter pattern.groupNames]
    rfl
  have hnone : ∀ name ∈ other.groupNames.filter (· ∉ pattern.groupNames),
      pattern.slotsOf name = [] :=
    fun name hname => slotsOf_eq_nil (by simpa using (List.mem_filter.mp hname).2)
  rw [groups_eq, groups_eq, groups_eq, map_mapSlots_groupTable, hnames,
    joinTables_groupTable _ _ _ _ fun name hname => by rw [slotsOf_eq_nil hname, List.map_nil]]
  simp only [groupTable, List.map_append, hslots]
  refine congrArg _ (List.map_congr_left fun name hname => ?_)
  rw [hnone name hname, List.nil_append]

/-- The slots behind three steps join a group, and another group is new. -/
example :
    joinTables [⟨"a", [0, 2]⟩] ([⟨"b", [0]⟩, ⟨"a", [1]⟩].map (ShuffleGroup.mapSlots (· + 3))) =
      [⟨"a", [0, 2, 4]⟩, ⟨"b", [3]⟩] := by
  decide

/-! ## Tables of steps with another between them -/

/-- The slot of a step after another one was put at a place. -/
def shiftFrom (place slot : ℕ) : ℕ :=
  if slot < place then slot else slot + 1

/-- All slots are shifted from the first place on. -/
@[simp] lemma shiftFrom_zero (slot : ℕ) : shiftFrom 0 slot = slot + 1 :=
  if_neg (Nat.not_lt_zero slot)

/-- The first slot stays where it is if the place is a later one. -/
@[simp] lemma shiftFrom_succ_zero (place : ℕ) : shiftFrom (place + 1) 0 = 0 :=
  if_pos place.succ_pos

/-- Later slots are shifted from later places on. -/
@[simp] lemma shiftFrom_succ_succ (place slot : ℕ) :
    shiftFrom (place + 1) (slot + 1) = shiftFrom place slot + 1 := by
  unfold shiftFrom
  split_ifs <;> omega

/-- No slot is shifted to the place itself. -/
lemma shiftFrom_ne (place slot : ℕ) : shiftFrom place slot ≠ place := by
  unfold shiftFrom
  split_ifs <;> omega

/-- What drops a member finds the same without it. -/
lemma filterMap_insertIdx {α β : Type} {f : α → Option β} {x : α} (h : f x = none) (place : ℕ)
    (xs : List α) : (xs.insertIdx place x).filterMap f = xs.filterMap f := by
  induction xs generalizing place with
  | nil =>
    cases place with
    | zero => simp [h]
    | succ place => rfl
  | cons first xs ih =>
    cases place with
    | zero => simp [h]
    | succ place => simp only [List.insertIdx_succ_cons, List.filterMap_cons, ih]

/-- The slots of a group are shifted from the place on where a step without a group is put. -/
lemma slotsFrom_insertIdx (name : String) {step : Step} (hgroup : step.group? = none)
    (slot place : ℕ) (steps : List Step) :
    slotsFrom name slot (steps.insertIdx place step) =
      (slotsFrom name slot steps).map (shiftFrom (slot + place)) := by
  induction place generalizing slot steps with
  | zero =>
    have hshift : ∀ other ∈ slotsFrom name slot steps, other + 1 = shiftFrom slot other :=
      fun other hother => (if_neg (Nat.not_lt.mpr (le_of_mem_slotsFrom hother))).symm
    rw [List.insertIdx_zero, slotsFrom_cons, if_neg (by simp [hgroup]), List.nil_append,
      slotsFrom_add, Nat.add_zero]
    exact List.map_congr_left hshift
  | succ place ih =>
    cases steps with
    | nil => rfl
    | cons first steps =>
      have hfirst : shiftFrom (slot + (place + 1)) slot = slot := if_pos (by omega)
      rw [List.insertIdx_succ_cons, slotsFrom_cons, slotsFrom_cons, ih, List.map_append,
        Nat.add_right_comm slot 1 place]
      split_ifs
      · rw [List.map_singleton, hfirst]
        rfl
      · rfl

/-- **The table of groups of steps with another one between them** that has no group: the slots are
shifted from its place on. -/
lemma Pattern.groups_insertIdx (pattern : Pattern) {step : Step} (hgroup : step.group? = none)
    (place : ℕ) :
    groups ⟨pattern.steps.insertIdx place step⟩ =
      pattern.groups.map (ShuffleGroup.mapSlots (shiftFrom place)) := by
  have hslots : slotsOf ⟨pattern.steps.insertIdx place step⟩ =
      fun name => (pattern.slotsOf name).map (shiftFrom place) := by
    funext name
    rw [slotsOf, slotsFrom_insertIdx name hgroup, Nat.zero_add]
    rfl
  have hnames : groupNames ⟨pattern.steps.insertIdx place step⟩ = pattern.groupNames := by
    rw [groupNames, filterMap_insertIdx hgroup]
    rfl
  rw [groups_eq, groups_eq, map_mapSlots_groupTable, hslots, hnames]

end Arranger
