import Mathlib.Data.List.Basic
import Mathlib.Data.List.Nodup
import Arranger.Preset.Book

/-!
# Merging books of presets

A book is a row of entries in which no name stands twice, so it is determined by its names in order
and by the preset of each of them. An insertion changes one preset and adds at most one name, at the
end. A merge is a row of insertions: the names of the other book that are new are added in their
order, and its presets win.

## Main definitions

* `Arranger.PresetBook.Reachable` — the books that insertions and merges make of the empty one.

## Main results

* `Arranger.PresetBook.names_insert`, `get?_insert` — what an insertion changes.
* `Arranger.PresetBook.names_merge`, `get?_merge` — what a merge makes.
* `Arranger.PresetBook.ext_of_names` — a book is its names and their presets.
* `Arranger.PresetBook.merge_laws` — **the laws of merging**.
-/

namespace Arranger

/-! ## Entries -/

section Entries

variable {name : String} {preset : Preset} {entries : List (String × Preset)}

/-- The names with an entry added: a new name comes last. -/
lemma map_fst_insertEntry : (insertEntry name preset entries).map Prod.fst =
    if name ∈ entries.map Prod.fst then entries.map Prod.fst
    else entries.map Prod.fst ++ [name] := by
  induction entries with
  | nil => rfl
  | cons entry entries ih =>
    rw [insertEntry]
    by_cases hname : entry.1 = name
    · simp [hname]
    · rw [if_neg hname, List.map_cons, ih, List.map_cons]
      simp only [List.mem_cons, Ne.symm hname, false_or]
      split_ifs
      · rfl
      · rw [List.cons_append]

/-- The preset of a name in entries of which the first is given. -/
lemma lookup_cons_eq_ite (entry : String × Preset) (entries : List (String × Preset)) (x : String) :
    (entry :: entries).lookup x = if x = entry.1 then some entry.2 else entries.lookup x := by
  rw [List.lookup_cons]
  split_ifs with hx
  · rw [beq_iff_eq.mpr hx]
  · rw [beq_eq_false_iff_ne.mpr hx]

/-- The preset of a name with an entry added: the other names keep theirs. -/
lemma lookup_insertEntry (x : String) : (insertEntry name preset entries).lookup x =
    if x = name then some preset else entries.lookup x := by
  induction entries with
  | nil => exact lookup_cons_eq_ite (name, preset) [] x
  | cons entry entries ih =>
    rw [insertEntry, lookup_cons_eq_ite]
    by_cases hname : entry.1 = name
    · rw [if_pos hname, lookup_cons_eq_ite, hname]
      by_cases hx : x = name
      · rw [if_pos hx, if_pos hx]
      · rw [if_neg hx, if_neg hx, if_neg hx]
    · rw [if_neg hname, lookup_cons_eq_ite, ih]
      by_cases hx : x = entry.1
      · rw [if_pos hx, if_pos hx, if_neg (hx ▸ hname)]
      · rw [if_neg hx, if_neg hx]

/-- Entries with distinct names are made of the names and the preset of each. -/
lemma entries_eq_filterMap (h : (entries.map Prod.fst).Nodup) :
    entries = (entries.map Prod.fst).filterMap fun name =>
      (entries.lookup name).map (name, ·) := by
  induction entries with
  | nil => rfl
  | cons entry entries ih =>
    obtain ⟨hentry, hentries⟩ := List.nodup_cons.mp h
    have hfirst : ((entry :: entries).lookup entry.1).map (entry.1, ·) = some entry := by
      rw [lookup_cons_eq_ite, if_pos rfl]
      rfl
    simp only [List.map_cons, List.filterMap_cons, hfirst]
    refine congrArg (entry :: ·) ((ih hentries).trans (List.filterMap_congr fun name hname => ?_))
    have hne : name ≠ entry.1 := fun heq => hentry (heq ▸ hname)
    rw [lookup_cons_eq_ite, if_neg hne]

end Entries

namespace PresetBook

/-- The books that can be made of the empty one by insertions and merges. -/
inductive Reachable : PresetBook → Prop where
  /-- The book without presets. -/
  | empty : Reachable empty
  /-- A preset is put under a name. -/
  | insert {book : PresetBook} (name : String) (preset : Preset) :
      Reachable book → Reachable (book.insert name preset)
  /-- The presets of another book are put in. -/
  | merge {book other : PresetBook} :
      Reachable book → Reachable other → Reachable (book.merge other)

variable {a b c : PresetBook} {name : String} {preset : Preset}

/-! ## Insertion -/

/-- The names with a preset inserted: a name that is there keeps its place, and a new one comes
last. -/
lemma names_insert : (a.insert name preset).names =
    if name ∈ a.names then a.names else a.names ++ [name] :=
  map_fst_insertEntry

/-- The preset of a name after an insertion. -/
lemma get?_insert (x : String) :
    (a.insert name preset).get? x = if x = name then some preset else a.get? x :=
  lookup_insertEntry x

/-- Insertion keeps the names distinct. -/
lemma nodup_names_insert (h : a.names.Nodup) : (a.insert name preset).names.Nodup := by
  rw [names_insert]
  split_ifs with hname
  · exact h
  · exact List.nodup_append'.mpr ⟨h, List.nodup_singleton name, by simpa using hname⟩

/-- The names of a book are the ones that have a preset. -/
lemma get?_eq_none_iff {x : String} : a.get? x = none ↔ x ∉ a.names := by
  rw [get?, List.lookup_eq_none_iff, names, List.mem_map]
  constructor
  · rintro h ⟨entry, hmem, rfl⟩
    exact absurd (h entry hmem) (by simp)
  · intro h entry hmem
    exact bne_iff_ne.mpr fun heq => h ⟨entry, hmem, heq.symm⟩

/-- **A book with distinct names is its names and their presets.** -/
lemma ext_of_names (ha : a.names.Nodup) (hb : b.names.Nodup) (hnames : a.names = b.names)
    (hget : ∀ x, a.get? x = b.get? x) : a = b := by
  have hentries : a.entries = b.entries := by
    rw [entries_eq_filterMap ha, entries_eq_filterMap hb]
    exact (congrArg (List.filterMap _) hnames).trans
      (List.filterMap_congr fun x _ => congrArg (Option.map (x, ·)) (hget x))
  cases a
  cases b
  exact congrArg mk hentries

/-! ## Merging -/

/-- Merging the first entry and the others. -/
lemma merge_cons (a : PresetBook) (entry : String × Preset) (entries : List (String × Preset)) :
    a.merge ⟨entry :: entries⟩ = (a.insert entry.1 entry.2).merge ⟨entries⟩ :=
  rfl

/-- Merging keeps the names distinct. -/
lemma nodup_names_merge (h : a.names.Nodup) : (a.merge b).names.Nodup := by
  obtain ⟨entries⟩ := b
  induction entries generalizing a with
  | nil => exact h
  | cons entry entries ih => exact ih (nodup_names_insert h)

/-- **The names after a merge**: those of the first book, and behind them the new ones of the
second in its order. -/
lemma names_merge (h : b.names.Nodup) :
    (a.merge b).names = a.names ++ b.names.filter (· ∉ a.names) := by
  obtain ⟨entries⟩ := b
  induction entries generalizing a with
  | nil => simp [names, merge]
  | cons entry entries ih =>
    obtain ⟨hentry, hentries⟩ := List.nodup_cons.mp h
    have hnames : names ⟨entry :: entries⟩ = entry.1 :: names ⟨entries⟩ := rfl
    rw [merge_cons, ih hentries, names_insert, hnames, List.filter_cons]
    by_cases hmem : entry.1 ∈ a.names
    · simp [hmem]
    · -- the name goes over to the first book, where no other entry has it
      have hrest : ∀ x ∈ names ⟨entries⟩, (x ∉ a.names ++ [entry.1]) ↔ x ∉ a.names := by
        intro x hx
        have hne : x ≠ entry.1 := fun heq => hentry (heq ▸ hx)
        simp [hne]
      rw [if_neg hmem, if_pos (by simpa using hmem), List.append_assoc, List.singleton_append]
      exact congrArg (a.names ++ entry.1 :: ·)
        (List.filter_congr fun x hx => decide_eq_decide.mpr (hrest x hx))

/-- **The preset of a name after a merge**: the one of the second book, or else the one of the
first. -/
lemma get?_merge (h : b.names.Nodup) (x : String) :
    (a.merge b).get? x = (b.get? x).or (a.get? x) := by
  obtain ⟨entries⟩ := b
  induction entries generalizing a with
  | nil => rfl
  | cons entry entries ih =>
    obtain ⟨hentry, hentries⟩ := List.nodup_cons.mp h
    have hget : get? ⟨entry :: entries⟩ x =
        if x = entry.1 then some entry.2 else get? ⟨entries⟩ x :=
      lookup_cons_eq_ite entry entries x
    rw [merge_cons, ih hentries, get?_insert, hget]
    by_cases hx : x = entry.1
    · have hnone : get? ⟨entries⟩ x = none := get?_eq_none_iff.mpr (hx ▸ hentry)
      rw [if_pos hx, if_pos hx, hnone, Option.none_or, Option.some_or]
    · rw [if_neg hx, if_neg hx]

/-- **No name stands twice in a book.** -/
lemma Reachable.nodup_names (h : a.Reachable) : a.names.Nodup := by
  induction h with
  | empty => exact List.nodup_nil
  | insert name preset _ ih => exact nodup_names_insert ih
  | merge _ _ ih _ => exact nodup_names_merge ih

/-- Merging three books in either order is the same. -/
lemma merge_merge (ha : a.names.Nodup) (hb : b.names.Nodup) (hc : c.names.Nodup) :
    (a.merge b).merge c = a.merge (b.merge c) := by
  refine ext_of_names (nodup_names_merge (nodup_names_merge ha)) (nodup_names_merge ha) ?_
    fun x => ?_
  · rw [names_merge hc, names_merge hb, names_merge (nodup_names_merge hb), names_merge hc,
      List.filter_append, List.append_assoc, List.filter_filter]
    refine congrArg (fun rest => a.names ++ (b.names.filter (· ∉ a.names) ++ rest))
      (List.filter_congr fun x _ => ?_)
    rw [← Bool.decide_and, decide_eq_decide, List.mem_append, List.mem_filter]
    simp only [decide_eq_true_eq]
    tauto
  · rw [get?_merge hc, get?_merge hb, get?_merge (nodup_names_merge hb), get?_merge hc,
      Option.or_assoc]

/-- Merging into the empty book gives the other one. -/
lemma empty_merge (ha : a.names.Nodup) : empty.merge a = a := by
  refine ext_of_names (nodup_names_merge List.nodup_nil) ha ?_ fun x => ?_
  · rw [names_merge ha]
    simp [empty, names]
  · rw [get?_merge ha]
    exact Option.or_none

/-- Merging a book into itself changes nothing. -/
lemma merge_self (ha : a.names.Nodup) : a.merge a = a := by
  refine ext_of_names (nodup_names_merge ha) ha ?_ fun x => ?_
  · rw [names_merge ha, List.filter_eq_nil_iff.mpr (by simp), List.append_nil]
  · rw [get?_merge ha, Option.or_self]

/-- **Books form an ordered merge in which the second book wins.** The names in a book are
distinct. After a merge a name has the preset of the second book, or else the one of the first; the
names are those of the first book and behind them the new ones of the second, in order. Merging is
associative, with the empty book as its identity, and merging a book into itself changes nothing.

**Proof sketch.** An insertion into a book with distinct names gives a book with distinct names, by
induction on the way the books were made. The names and the presets after a merge follow by
induction on the entries of the second book, and the laws by comparing names and presets. -/
theorem merge_laws (ha : a.Reachable) (hb : b.Reachable) (hc : c.Reachable) :
    a.names.Nodup ∧
      (∀ x, (a.merge b).get? x = (b.get? x).or (a.get? x)) ∧
      (a.merge b).names = a.names ++ b.names.filter (· ∉ a.names) ∧
      (a.merge b).merge c = a.merge (b.merge c) ∧
      empty.merge a = a ∧ a.merge empty = a ∧ a.merge a = a :=
  ⟨ha.nodup_names, get?_merge hb.nodup_names, names_merge hb.nodup_names,
    merge_merge ha.nodup_names hb.nodup_names hc.nodup_names, empty_merge ha.nodup_names, rfl,
    merge_self ha.nodup_names⟩

/-- A book with two presets is merged into one with two, of which one has a name of the other: the
name keeps its place and gets the other preset, and the new name comes last. -/
theorem merge_laws_overlap :
    let first := (empty.insert "a" (.ofPattern "1")).insert "b" (.ofPattern "2")
    let second := (empty.insert "c" (.ofPattern "3")).insert "b" (.ofPattern "4")
    (first.merge second).names = ["a", "b", "c"] ∧
      (first.merge second).get? "b" = some (.ofPattern "4") ∧
      (first.merge second).merge first = first.merge (second.merge first) := by
  intro first second
  have hfirst : first.Reachable := (Reachable.empty.insert "a" _).insert "b" _
  have hsecond : second.Reachable := (Reachable.empty.insert "c" _).insert "b" _
  obtain ⟨-, hget, hnames, hassoc, -⟩ := merge_laws hfirst hsecond hfirst
  exact ⟨hnames.trans (by decide), (hget "b").trans (by decide), hassoc⟩

end PresetBook

end Arranger
