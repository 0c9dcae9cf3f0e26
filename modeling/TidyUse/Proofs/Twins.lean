import Mathlib.Data.List.Perm.Basic
import TidyUse.Proofs.Removal

/-!
# Twins

A reported import without a name of its own is spared if its path is also imported as `_`: then that
one goes in its stead. So of each path the first reported imports are spared, as many as there are
imports as `_`, and the first imports as `_` go, as many as there are reported ones.

* `Unused.Goes`, `Unused.Told.mem_drop_iff` : one step keeps this account;
* `Unused.Told.mem_dropped_iff` : so it holds in the end, if no path is reported both ways;
* `Unused.isContested` : the imports of which some go and some stay, and only the order tells which;
* `Unused.Apart.mem_dropped_iff`, `Unused.Apart.length_contested` : about any other import, and about
  the number of these that stay, the order says nothing.
-/

namespace TidyUse.Unused

/-! ## Which imports go -/

/-- A reported import of a path without a name of its own. -/
def isPlain (spans : List Span) (key : String) (t : Target) : Bool :=
  t.rename == none && t.key == key && isReported spans t

def isDiscard (key : String) (t : Target) : Bool := t.rename == some discardName && t.key == key

theorem isPlain_iff {spans : List Span} {key : String} {t : Target} :
    isPlain spans key t = true ↔ t.rename = none ∧ t.key = key ∧ isReported spans t = true := by
  simp [isPlain, and_assoc]

theorem isDiscard_iff {key : String} {t : Target} :
    isDiscard key t = true ↔ t.rename = some discardName ∧ t.key = key := by
  simp [isDiscard]

section Going

variable {spans : List Span} {all ps : List (Place × Target)}

/-- The reported imports of a path, without names of their own, among some. -/
def plains (spans : List Span) (ps : List (Place × Target)) (key : String) :
    List (Place × Target) :=
  ps.filter fun p => isPlain spans key p.2

def discards (all : List (Place × Target)) (key : String) : List (Place × Target) :=
  all.filter fun p => isDiscard key p.2

theorem mem_plains {key : String} {p : Place × Target} :
    p ∈ plains spans ps key ↔
      p ∈ ps ∧ p.2.rename = none ∧ p.2.key = key ∧ isReported spans p.2 = true := by
  rw [plains, List.mem_filter, isPlain_iff]

theorem mem_discards {key : String} {p : Place × Target} :
    p ∈ discards all key ↔ p ∈ all ∧ p.2.rename = some discardName ∧ p.2.key = key := by
  rw [discards, List.mem_filter, isDiscard_iff]

/-- The import goes when the reported imports `ps` have been looked at: each of a path without a
name makes the next import as `_` go, as long as there is one, and else goes itself. -/
def Goes (spans : List Span) (all ps : List (Place × Target)) (p : Place × Target) : Prop :=
  p ∈ (plains spans ps p.2.key).drop (discards all p.2.key).length ∨
    p.2.rename ≠ none ∧ p ∈ ps ∨
    p ∈ (discards all p.2.key).take (plains spans ps p.2.key).length

/-- A list without repetitions, in two parts, of which only one passes the test. -/
theorem filter_eq_part {α : Type} {l a b : List α} (hl : l.Nodup) (ha : a.Sublist l)
    (hparts : (a ++ b).Perm l) {q : α → Bool} (hq : ∀ x ∈ l, q x = false ↔ x ∈ b) :
    l.filter q = a := by
  have hdisjoint := (List.nodup_append.1 (hparts.nodup_iff.2 hl)).2.2
  have hfirst : a.filter q = a := List.filter_eq_self.2 fun x hx => by
    rw [← Bool.not_eq_false, hq x (ha.subset hx)]
    exact fun hxb => hdisjoint x hx x hxb rfl
  have hsecond : b.filter q = [] := List.filter_eq_nil_iff.2 fun x hx => by
    rw [Bool.not_eq_true, hq x (hparts.subset (List.mem_append_right a hx))]
    exact hx
  have hperm : (l.filter q).Perm a := by
    have hfilter := hparts.symm.filter q
    rwa [List.filter_append, hfirst, hsecond, List.append_nil] at hfilter
  exact (hl.perm_iff_eq_of_sublist List.filter_sublist ha).1 hperm

theorem filter_eq_take {α : Type} {l : List α} (hl : l.Nodup) {n : Nat} {q : α → Bool}
    (hq : ∀ x ∈ l, q x = false ↔ x ∈ l.drop n) : l.filter q = l.take n :=
  filter_eq_part hl (List.take_sublist n l) (by rw [List.take_append_drop]) hq

theorem filter_eq_drop {α : Type} {l : List α} (hl : l.Nodup) {n : Nat} {q : α → Bool}
    (hq : ∀ x ∈ l, q x = false ↔ x ∈ l.take n) : l.filter q = l.drop n := by
  refine filter_eq_part hl (List.drop_sublist n l) ?_ hq
  exact List.perm_append_comm.trans (by rw [List.take_append_drop])

/-- Imports, each told by its place, such that no path is reported both without a name and as
`_`. -/
structure Told (spans : List Span) (all : List (Place × Target)) : Prop where
  nodup : (all.map Prod.fst).Nodup
  apart : ∀ p ∈ all, ∀ q ∈ all, isPlain spans p.2.key p.2 = true → isDiscard p.2.key q.2 = true →
    isReported spans q.2 = false

/-! ### One more import is looked at -/

theorem plains_append {x : Place × Target} {key : String} (hx : isPlain spans key x.2 = true) :
    plains spans (ps ++ [x]) key = plains spans ps key ++ [x] := by
  rw [plains, List.filter_append, List.filter_singleton, hx, cond_true, plains]

theorem plains_append_of_not {x : Place × Target} {key : String}
    (hx : isPlain spans key x.2 = false) :
    plains spans (ps ++ [x]) key = plains spans ps key := by
  rw [plains, List.filter_append, List.filter_singleton, hx, cond_false, List.append_nil, plains]

theorem goes_append_of_named {x : Place × Target} (hx : x.2.rename ≠ none) (p : Place × Target) :
    Goes spans all (ps ++ [x]) p ↔ p = x ∨ Goes spans all ps p := by
  have hplain : isPlain spans p.2.key x.2 = false :=
    Bool.eq_false_iff.2 fun h => hx (isPlain_iff.1 h).1
  rw [Goes, Goes, plains_append_of_not hplain, List.mem_append, List.mem_singleton]
  constructor
  · rintro (hdrop | ⟨hname, hmem | rfl⟩ | htake)
    · exact Or.inr (Or.inl hdrop)
    · exact Or.inr (Or.inr (Or.inl ⟨hname, hmem⟩))
    · exact Or.inl rfl
    · exact Or.inr (Or.inr (Or.inr htake))
  · rintro (rfl | hdrop | ⟨hname, hmem⟩ | htake)
    · exact Or.inr (Or.inl ⟨hx, Or.inr rfl⟩)
    · exact Or.inl hdrop
    · exact Or.inr (Or.inl ⟨hname, Or.inl hmem⟩)
    · exact Or.inr (Or.inr htake)

/-- An import of another path makes no difference. -/
theorem goes_append_of_key {x p : Place × Target} (hkey : p.2.key ≠ x.2.key) :
    Goes spans all (ps ++ [x]) p ↔ Goes spans all ps p := by
  have hplain : isPlain spans p.2.key x.2 = false :=
    Bool.eq_false_iff.2 fun h => hkey (isPlain_iff.1 h).2.1.symm
  have hne : p ≠ x := fun h => hkey (h ▸ rfl)
  rw [Goes, Goes, plains_append_of_not hplain, List.mem_append, List.mem_singleton]
  simp only [hne, or_false]

theorem named_and_mem_append {x : Place × Target} (hx : x.2.rename = none) (p : Place × Target) :
    p.2.rename ≠ none ∧ p ∈ ps ++ [x] ↔ p.2.rename ≠ none ∧ p ∈ ps := by
  refine and_congr_right fun hp => ⟨fun hmem => ?_, List.mem_append_left _⟩
  rcases List.mem_append.1 hmem with hmem | hmem
  · exact hmem
  · exact absurd (List.mem_singleton.1 hmem ▸ hx) hp

theorem goes_append_of_twin {x d : Place × Target} (hx : isPlain spans x.2.key x.2 = true)
    (hd : (discards all x.2.key)[(plains spans ps x.2.key).length]? = some d)
    (p : Place × Target) : Goes spans all (ps ++ [x]) p ↔ p = d ∨ Goes spans all ps p := by
  obtain ⟨hnone, -, -⟩ := isPlain_iff.1 hx
  have hdkey : d.2.key = x.2.key := (mem_discards.1 (List.mem_of_getElem? hd)).2.2
  by_cases hkey : p.2.key = x.2.key
  · obtain ⟨hlt, -⟩ := List.getElem?_eq_some_iff.1 hd
    have hdrop : (plains spans ps x.2.key).drop (discards all x.2.key).length = [] :=
      List.drop_eq_nil_of_le (by omega)
    have hdrop' : (plains spans ps x.2.key ++ [x]).drop (discards all x.2.key).length = [] :=
      List.drop_eq_nil_of_le (by rw [List.length_append, List.length_singleton]; omega)
    rw [Goes, Goes, hkey, plains_append hx, hdrop, hdrop', List.length_append, List.length_singleton,
      List.take_add_one, hd, named_and_mem_append hnone, List.mem_append, Option.toList_some,
      List.mem_singleton]
    simp only [List.not_mem_nil, false_or]
    tauto
  · have hne : p ≠ d := fun h => hkey (h ▸ hdkey)
    rw [goes_append_of_key hkey]
    simp only [hne, false_or]

theorem goes_append_of_none {x : Place × Target} (hx : isPlain spans x.2.key x.2 = true)
    (hd : (discards all x.2.key)[(plains spans ps x.2.key).length]? = none)
    (p : Place × Target) : Goes spans all (ps ++ [x]) p ↔ p = x ∨ Goes spans all ps p := by
  obtain ⟨hnone, -, -⟩ := isPlain_iff.1 hx
  by_cases hkey : p.2.key = x.2.key
  · have hle := List.getElem?_eq_none_iff.1 hd
    rw [Goes, Goes, hkey, plains_append hx, List.drop_append_of_le_length hle, List.length_append,
      List.length_singleton, List.take_of_length_le hle, List.take_of_length_le (by omega),
      named_and_mem_append hnone, List.mem_append, List.mem_singleton]
    tauto
  · have hne : p ≠ x := fun h => hkey (h ▸ rfl)
    rw [goes_append_of_key hkey]
    simp only [hne, false_or]

variable (h : Told spans all)

include h

theorem Told.eq_of_place {p q : Place × Target} (hp : p ∈ all) (hq : q ∈ all) (heq : p.1 = q.1) :
    p = q :=
  List.inj_on_of_nodup_map h.nodup hp hq heq

theorem Told.discardTwin_eq {gone : List Place}
    (hps : ∀ p ∈ ps, p ∈ all ∧ isReported spans p.2 = true)
    (hgone : ∀ p ∈ all, p.1 ∈ gone ↔ Goes spans all ps p) {x : Place × Target} (hx : x ∈ all)
    (hplain : isPlain spans x.2.key x.2 = true) :
    discardTwin all gone x.2.key =
      ((discards all x.2.key)[(plains spans ps x.2.key).length]?).map Prod.fst := by
  have hfind : (discards all x.2.key).find? (fun d => !gone.contains d.1) =
      (discards all x.2.key)[(plains spans ps x.2.key).length]? := by
    rw [← List.head?_filter, ← List.head?_drop]
    refine congrArg List.head? (filter_eq_drop (h.nodup.of_map.filter _) fun d hd => ?_)
    obtain ⟨hd', hname, hkey⟩ := mem_discards.1 hd
    rw [Bool.not_eq_false', List.contains_iff_mem, hgone d hd', Goes, hkey]
    refine ⟨?_, fun hmem => Or.inr (Or.inr hmem)⟩
    rintro (hdrop | ⟨-, hmem⟩ | hmem)
    · have hnone := (mem_plains.1 (List.mem_of_mem_drop hdrop)).2.1
      rw [hname] at hnone
      cases hnone
    · have hfree := h.apart x hx d hd' hplain (isDiscard_iff.2 ⟨hname, hkey⟩)
      rw [(hps d hmem).2] at hfree
      cases hfree
    · exact hmem
  rw [discardTwin, ← hfind, discards, List.find?_filter]
  congr 2
  funext p
  rw [Bool.eq_iff_iff]
  simp [isDiscard]

/-- One step keeps the account of what goes. -/
theorem Told.mem_drop_iff {gone : List Place}
    (hps : ∀ p ∈ ps, p ∈ all ∧ isReported spans p.2 = true)
    (hgone : ∀ p ∈ all, p.1 ∈ gone ↔ Goes spans all ps p) {x : Place × Target} (hx : x ∈ all)
    (hreported : isReported spans x.2 = true) {p : Place × Target} (hp : p ∈ all) :
    p.1 ∈ (drop all gone x).value ↔ Goes spans all (ps ++ [x]) p := by
  have hself : p.1 = x.1 ↔ p = x := ⟨h.eq_of_place hp hx, congrArg Prod.fst⟩
  have hplain : x.2.rename = none → isPlain spans x.2.key x.2 = true := fun hnone =>
    isPlain_iff.2 ⟨hnone, rfl, hreported⟩
  rcases value_drop_cases all gone x with ⟨twin, hnone, htwin, hvalue⟩ | ⟨htwin, hvalue⟩
  · rw [h.discardTwin_eq hps hgone hx (hplain hnone)] at htwin
    obtain ⟨d, hd, rfl⟩ := Option.map_eq_some_iff.1 htwin
    have hdmem : d ∈ all := (mem_discards.1 (List.mem_of_getElem? hd)).1
    have htwin' : p.1 = d.1 ↔ p = d := ⟨h.eq_of_place hp hdmem, congrArg Prod.fst⟩
    rw [hvalue, List.mem_cons, htwin', hgone p hp, goes_append_of_twin (hplain hnone) hd]
  · rw [hvalue, List.mem_cons, hself, hgone p hp]
    by_cases hnone : x.2.rename = none
    · have hnil := htwin hnone
      rw [h.discardTwin_eq hps hgone hx (hplain hnone), Option.map_eq_none_iff] at hnil
      rw [goes_append_of_none (hplain hnone) hnil]
    · rw [goes_append_of_named hnone]

/-- So does a run. -/
theorem Told.mem_foldl_drop_iff (hps : ∀ p ∈ ps, p ∈ all ∧ isReported spans p.2 = true) :
    ∀ p ∈ all, p.1 ∈ ps.foldl (fun gone x => (drop all gone x).value) [] ↔ Goes spans all ps p := by
  induction ps using List.reverseRecOn with
  | nil =>
    intro p _
    simp [Goes, plains]
  | append_singleton ps x ih =>
    intro p hp
    obtain ⟨hx, hreported⟩ := hps x (List.mem_append_right _ (List.mem_singleton_self x))
    have hps' : ∀ q ∈ ps, q ∈ all ∧ isReported spans q.2 = true := fun q hq =>
      hps q (List.mem_append_left _ hq)
    rw [List.foldl_append, List.foldl_cons, List.foldl_nil]
    exact h.mem_drop_iff hps' (ih hps') hx hreported hp

/-- What goes in the end. -/
theorem Told.mem_dropped_iff {p : Place × Target} (hp : p ∈ all) :
    p.1 ∈ (dropped spans all).value ↔
      p ∈ (plains spans all p.2.key).drop (discards all p.2.key).length ∨
        p.2.rename ≠ none ∧ isReported spans p.2 = true ∨
        p ∈ (discards all p.2.key).take (plains spans all p.2.key).length := by
  have hplains : plains spans (all.filter fun q => isReported spans q.2) p.2.key =
      plains spans all p.2.key := by
    rw [plains, plains, List.filter_filter]
    refine List.filter_congr fun q _ => ?_
    rw [isPlain, Bool.and_assoc, Bool.and_self]
  rw [value_dropped, h.mem_foldl_drop_iff (fun q hq => List.mem_filter.1 hq) p hp, Goes, hplains,
    List.mem_filter, and_iff_right hp]

theorem Told.mem_dropped_of_none {p : Place × Target} (hp : p ∈ all) (hnone : p.2.rename = none) :
    p.1 ∈ (dropped spans all).value ↔
      p ∈ (plains spans all p.2.key).drop (discards all p.2.key).length := by
  rw [h.mem_dropped_iff hp]
  refine ⟨?_, Or.inl⟩
  rintro (hmem | ⟨hname, -⟩ | hmem)
  · exact hmem
  · exact absurd hnone hname
  · have hname := (mem_discards.1 (List.mem_of_mem_take hmem)).2.1
    rw [hnone] at hname
    cases hname

theorem Told.mem_dropped_of_discard {p : Place × Target} (hp : p ∈ all)
    (hname : p.2.rename = some discardName) :
    p.1 ∈ (dropped spans all).value ↔ isReported spans p.2 = true ∨
      p ∈ (discards all p.2.key).take (plains spans all p.2.key).length := by
  have hsome : p.2.rename ≠ none := by
    rw [hname]
    exact Option.some_ne_none _
  rw [h.mem_dropped_iff hp, and_iff_right hsome]
  refine ⟨?_, Or.inr⟩
  rintro (hmem | hor)
  · exact absurd (mem_plains.1 (List.mem_of_mem_drop hmem)).2.1 hsome
  · exact hor

theorem Told.mem_dropped_of_named {p : Place × Target} (hp : p ∈ all) {name : String}
    (hname : p.2.rename = some name) (hne : name ≠ discardName) :
    p.1 ∈ (dropped spans all).value ↔ isReported spans p.2 = true := by
  have hsome : p.2.rename ≠ none := by
    rw [hname]
    exact Option.some_ne_none _
  rw [h.mem_dropped_iff hp, and_iff_right hsome]
  refine ⟨?_, fun hreported => Or.inr (Or.inl hreported)⟩
  rintro (hmem | hreported | hmem)
  · exact absurd (mem_plains.1 (List.mem_of_mem_drop hmem)).2.1 hsome
  · exact hreported
  · have hdiscard := (mem_discards.1 (List.mem_of_mem_take hmem)).2.1
    rw [hname, Option.some.injEq] at hdiscard
    exact absurd hdiscard hne

end Going

/-! ## Counting -/

theorem nodup_placed (ss : List Statement) : ((placed ss).map Prod.fst).Nodup := by
  have hplaces : ∀ (s : Statement) (i : Nat), (placedIn s i).map Prod.fst =
      (List.range' 0 s.tree.targets.length).map fun j => (i, j) := by
    intro s i
    rw [placedIn, List.map_map, ← List.zipIdx_map_snd 0 s.tree.targets, List.map_map]
    rfl
  rw [placed, List.map_flatMap, List.nodup_flatMap]
  refine ⟨fun p _ => ?_, ?_⟩
  · rw [hplaces]
    exact List.Nodup.map (fun j j' hj => (Prod.mk.inj hj).2) List.nodup_range'
  · have hidx : (ss.zipIdx.map Prod.snd).Nodup := by
      rw [List.zipIdx_map_snd]
      exact List.nodup_range'
    refine (List.pairwise_map.1 hidx).imp fun {p q} hne => ?_
    show List.Disjoint ((placedIn p.1 p.2).map Prod.fst) ((placedIn q.1 q.2).map Prod.fst)
    rw [hplaces, hplaces, List.disjoint_left]
    intro a ha ha'
    obtain ⟨j, -, rfl⟩ := List.mem_map.1 ha
    obtain ⟨j', -, heq⟩ := List.mem_map.1 ha'
    exact hne (Prod.mk.inj heq).1.symm

theorem map_snd_placed (ss : List Statement) :
    (placed ss).map Prod.snd = Statement.allTargets ss := by
  rw [placed, List.map_flatMap, Statement.allTargets]
  conv_rhs => rw [← List.zipIdx_map_fst 0 ss, List.flatMap_map]
  exact List.flatMap_congr fun p _ => map_snd_placedIn ..

def plainCount (spans : List Span) (ss : List Statement) (key : String) : Nat :=
  (Statement.allTargets ss).countP (isPlain spans key)

def discardCount (ss : List Statement) (key : String) : Nat :=
  (Statement.allTargets ss).countP (isDiscard key)

theorem length_filter_placed (ss : List Statement) (q : Target → Bool) :
    ((placed ss).filter fun p => q p.2).length = (Statement.allTargets ss).countP q := by
  rw [← map_snd_placed, List.countP_map, List.countP_eq_length_filter]
  rfl

theorem length_plains (spans : List Span) (ss : List Statement) (key : String) :
    (plains spans (placed ss) key).length = plainCount spans ss key :=
  length_filter_placed ss _

theorem length_discards (ss : List Statement) (key : String) :
    (discards (placed ss) key).length = discardCount ss key :=
  length_filter_placed ss _

/-- It depends on the order whether the import goes: there are reported imports of its path without
a name, and imports of its path as `_`, and it is among those of which there are more. -/
def isContested (spans : List Span) (ss : List Statement) (t : Target) : Bool :=
  isPlain spans t.key t && decide (0 < discardCount ss t.key) &&
      decide (discardCount ss t.key < plainCount spans ss t.key) ||
    isDiscard t.key t && decide (0 < plainCount spans ss t.key) &&
      decide (plainCount spans ss t.key < discardCount ss t.key)

/-- The contested imports of a path are its reported ones, or else those as `_`. -/
theorem isContested_and_key (spans : List Span) (ss : List Statement) (key : String) (t : Target) :
    (isContested spans ss t && t.key == key) =
      if 0 < discardCount ss key ∧ discardCount ss key < plainCount spans ss key then
        isPlain spans key t
      else if 0 < plainCount spans ss key ∧ plainCount spans ss key < discardCount ss key then
        isDiscard key t
      else false := by
  by_cases hkey : t.key = key
  · subst hkey
    rw [beq_self_eq_true, Bool.and_true, isContested]
    split
    · rename_i hlt
      simp [hlt, Nat.not_lt_of_gt hlt.2]
    · rename_i hnot
      split
      · rename_i hlt
        simp [hlt, Nat.not_lt_of_gt hlt.2]
      · rename_i hnot'
        simp only [Bool.and_assoc, ← Bool.decide_and, hnot, hnot', decide_false, Bool.and_false,
          Bool.or_false]
  · have hbeq : (t.key == key) = false := beq_false_of_ne hkey
    simp [isPlain, isDiscard, hbeq]

/-- An import that is not contested stays. -/
def stays (spans : List Span) (ss : List Statement) (t : Target) : Bool :=
  match t.rename with
  | none =>
    !isReported spans t || decide (plainCount spans ss t.key ≤ discardCount ss t.key)
  | some name =>
    !isReported spans t &&
      (name != discardName || decide (plainCount spans ss t.key < discardCount ss t.key))

/-- How many of the contested imports of a path stay. -/
def contestedLeft (spans : List Span) (ss : List Statement) (key : String) : Nat :=
  if 0 < discardCount ss key ∧ discardCount ss key < plainCount spans ss key then
    discardCount ss key
  else if 0 < plainCount spans ss key ∧ plainCount spans ss key < discardCount ss key then
    discardCount ss key - plainCount spans ss key
  else 0

/-- No path is reported both without a name and as `_`. -/
def Apart (spans : List Span) (ss : List Statement) : Prop :=
  ∀ t ∈ Statement.allTargets ss, ∀ u ∈ Statement.allTargets ss,
    isPlain spans t.key t = true → isDiscard t.key u = true → isReported spans u = false

section Apart

variable {spans : List Span} {ss : List Statement} (h : Apart spans ss)

include h

theorem Apart.told : Told spans (placed ss) where
  nodup := nodup_placed ss
  apart p hp q hq := by
    rw [Apart, ← map_snd_placed] at h
    exact h p.2 (List.mem_map_of_mem hp) q.2 (List.mem_map_of_mem hq)

/-! ### Imports that are not contested -/

theorem Apart.mem_dropped_of_none {p : Place × Target} (hp : p ∈ placed ss)
    (hname : p.2.rename = none) (hfree : isContested spans ss p.2 = false) :
    p.1 ∈ (dropped spans (placed ss)).value ↔
      isReported spans p.2 = true ∧ discardCount ss p.2.key < plainCount spans ss p.2.key := by
  rw [h.told.mem_dropped_of_none hp hname, length_discards]
  constructor
  · intro hmem
    refine ⟨(mem_plains.1 (List.mem_of_mem_drop hmem)).2.2.2, ?_⟩
    have hlength := List.length_pos_of_mem hmem
    rw [List.length_drop, length_plains] at hlength
    omega
  · rintro ⟨hreported, hlt⟩
    have hplain : isPlain spans p.2.key p.2 = true := isPlain_iff.2 ⟨hname, rfl, hreported⟩
    have hzero : discardCount ss p.2.key = 0 := by
      rw [isContested, Bool.or_eq_false_iff] at hfree
      simpa [hplain, hlt] using hfree.1
    rw [hzero, List.drop_zero]
    exact mem_plains.2 ⟨hp, hname, rfl, hreported⟩

theorem Apart.mem_dropped_of_discard {p : Place × Target} (hp : p ∈ placed ss)
    (hname : p.2.rename = some discardName) (hfree : isContested spans ss p.2 = false) :
    p.1 ∈ (dropped spans (placed ss)).value ↔
      isReported spans p.2 = true ∨ discardCount ss p.2.key ≤ plainCount spans ss p.2.key := by
  have hmem : p ∈ discards (placed ss) p.2.key := mem_discards.2 ⟨hp, hname, rfl⟩
  rw [h.told.mem_dropped_of_discard hp hname, length_plains]
  refine or_congr_right ⟨fun htake => ?_, fun hle => ?_⟩
  · have hdiscard : isDiscard p.2.key p.2 = true := isDiscard_iff.2 ⟨hname, rfl⟩
    have hpos : 0 < plainCount spans ss p.2.key := by
      have hlength := List.length_pos_of_mem htake
      rw [List.length_take] at hlength
      omega
    rw [isContested, Bool.or_eq_false_iff] at hfree
    simpa [hdiscard, hpos] using hfree.2
  · rwa [List.take_of_length_le (by rwa [length_discards])]

/-- What is not contested goes or stays by the numbers alone. -/
theorem Apart.mem_dropped_iff {p : Place × Target} (hp : p ∈ placed ss)
    (hfree : isContested spans ss p.2 = false) :
    p.1 ∈ (dropped spans (placed ss)).value ↔ stays spans ss p.2 = false := by
  rw [stays]
  cases hname : p.2.rename with
  | none =>
    rw [h.mem_dropped_of_none hp hname hfree]
    simp
  | some name =>
    by_cases hne : name = discardName
    · subst hne
      rw [h.mem_dropped_of_discard hp hname hfree]
      cases isReported spans p.2 <;> simp
    · rw [h.told.mem_dropped_of_named hp hname hne]
      simp [hne]

/-! ### Imports that are contested -/

/-- Of the reported imports of a path the first ones stay. -/
theorem Apart.filter_plains (key : String) :
    (plains spans (placed ss) key).filter
        (fun p => !(dropped spans (placed ss)).value.contains p.1) =
      (plains spans (placed ss) key).take (discardCount ss key) := by
  refine filter_eq_take (h.told.nodup.of_map.filter _) fun p hp => ?_
  obtain ⟨hmem, hnone, hkey, -⟩ := mem_plains.1 hp
  rw [Bool.not_eq_false', List.contains_iff_mem, h.told.mem_dropped_of_none hmem hnone,
    length_discards, hkey, plains]

/-- Of the imports of a path as `_` the last ones stay. -/
theorem Apart.filter_discards {key : String} (hpos : 0 < plainCount spans ss key) :
    (discards (placed ss) key).filter
        (fun p => !(dropped spans (placed ss)).value.contains p.1) =
      (discards (placed ss) key).drop (plainCount spans ss key) := by
  rw [← length_plains, List.length_pos_iff_exists_mem] at hpos
  obtain ⟨q, hq⟩ := hpos
  obtain ⟨hqmem, hqnone, hqkey, hqreported⟩ := mem_plains.1 hq
  refine filter_eq_drop (h.told.nodup.of_map.filter _) fun p hp => ?_
  obtain ⟨hmem, hname, hkey⟩ := mem_discards.1 hp
  have hfree : isReported spans p.2 = false := h.told.apart q hqmem p hmem
    (isPlain_iff.2 ⟨hqnone, rfl, hqreported⟩) (isDiscard_iff.2 ⟨hname, hkey.trans hqkey.symm⟩)
  rw [Bool.not_eq_false', List.contains_iff_mem, h.told.mem_dropped_of_discard hmem hname, hfree,
    length_plains, hkey, discards]
  simp only [Bool.false_eq_true, false_or]

theorem Apart.length_contested (key : String) :
    ((placed ss).filter fun p => !(dropped spans (placed ss)).value.contains p.1 &&
      (isContested spans ss p.2 && p.2.key == key)).length = contestedLeft spans ss key := by
  simp only [isContested_and_key, contestedLeft]
  split
  · rename_i hlt
    rw [← List.filter_filter, ← plains, h.filter_plains, List.length_take, length_plains]
    exact Nat.min_eq_left hlt.2.le
  · split
    · rename_i hlt
      rw [← List.filter_filter, ← discards, h.filter_discards hlt.1, List.length_drop,
        length_discards]
    · simp

end Apart

end TidyUse.Unused
