import Mathlib.Data.List.Basic
import TidyUse.Manifest

/-!
# The crates that a manifest declares

* `Purpose` : what a crate is needed for; `Purpose.field` is the name of its tables;
* `Manifest.Holds` : the dependency tables of a manifest, in all places where it may have them;
* `Manifest.Names` : the names an entry of such a table may go by;
* `undashed` : the characters of a name, with `_` for `-`;
* `Manifest.dependencies_exact` : the crates of a manifest are those that its tables name, each for
  the purpose of its table.
-/

namespace TidyUse

inductive Purpose
  | normal
  | dev
  | build

def Purpose.field : Purpose → String
  | normal => "dependencies"
  | dev => "dev-dependencies"
  | build => "build-dependencies"

def Dependencies.neededFor (deps : Dependencies) : Purpose → List String
  | .normal => deps.normal
  | .dev => deps.dev
  | .build => deps.build

/-- The characters of a name, with `_` in place of each `-`. -/
def undashed (name : String) : List Char := name.toList.map fun c => if c = '-' then '_' else c

theorem toList_crateName (name : String) : (crateName name).toList = undashed name := by
  unfold crateName undashed
  rw [String.toList_ofList]
  simp only [beq_iff_eq]

theorem crateName_eq_iff {name crate : String} :
    crateName name = crate ↔ crate.toList = undashed name := by
  rw [← toList_crateName, String.toList_inj, eq_comm]

theorem Dependencies.contains_iff (deps : Dependencies) (name : String) :
    deps.contains name = true ↔ ∃ purpose, crateName name ∈ deps.neededFor purpose := by
  unfold Dependencies.contains
  simp only [Bool.or_eq_true, List.contains_iff_mem]
  constructor
  · rintro ((h | h) | h)
    · exact ⟨.normal, h⟩
    · exact ⟨.dev, h⟩
    · exact ⟨.build, h⟩
  · rintro ⟨purpose, h⟩
    cases purpose with
    | normal => exact Or.inl (Or.inl h)
    | dev => exact Or.inl (Or.inr h)
    | build => exact Or.inr h

namespace Manifest

open Toml

/-- The manifest has a table of crates for a purpose: its own, that of its workspace, or that of one
of its targets. -/
inductive Holds (manifest : Value) : Purpose → Table → Prop
  | own {purpose : Purpose} {entries : Table}
    (table : manifest.get? purpose.field = some (.table entries)) : Holds manifest purpose entries
  | workspace {w : Value} {entries : Table} (inner : manifest.get? "workspace" = some w)
    (table : w.get? "dependencies" = some (.table entries)) : Holds manifest .normal entries
  | target {purpose : Purpose} {targets entries : Table} {name : String} {t : Value}
    (inner : manifest.get? "target" = some (.table targets)) (mem : (name, t) ∈ targets)
    (table : t.get? purpose.field = some (.table entries)) : Holds manifest purpose entries

/-- An entry of the table goes by the name: it is its key, or the text of its field `package`. -/
def Names (entries : Table) (name : String) : Prop :=
  ∃ e ∈ entries, e.1 = name ∨ e.2.get? "package" = some (.string name)

theorem mem_entryNames {key crate : String} {v : Value} :
    crate ∈ entryNames key v ↔
      ∃ name, (key = name ∨ v.get? "package" = some (.string name)) ∧ crateName name = crate := by
  unfold entryNames
  split
  · rename_i package hpackage
    rw [hpackage, List.mem_cons, List.mem_singleton]
    constructor
    · rintro (rfl | rfl)
      · exact ⟨key, Or.inl rfl, rfl⟩
      · exact ⟨package, Or.inr rfl, rfl⟩
    · rintro ⟨name, rfl | hname, rfl⟩
      · exact Or.inl rfl
      · cases hname
        exact Or.inr rfl
  · rename_i hnone
    rw [List.mem_singleton]
    constructor
    · rintro rfl
      exact ⟨key, Or.inl rfl, rfl⟩
    · rintro ⟨name, rfl | hname, rfl⟩
      · rfl
      · exact absurd hname (hnone name)

theorem mem_names {table : Option Value} {crate : String} :
    crate ∈ names table ↔
      ∃ entries, table = some (.table entries) ∧ ∃ name, Names entries name ∧ crateName name = crate := by
  unfold names
  split
  · rename_i entries
    simp only [List.mem_flatMap, mem_entryNames]
    constructor
    · rintro ⟨e, he, name, hname, rfl⟩
      exact ⟨entries, rfl, name, ⟨e, he, hname⟩, rfl⟩
    · rintro ⟨_, hentries, name, ⟨e, he, hname⟩, rfl⟩
      cases hentries
      exact ⟨e, he, name, hname, rfl⟩
  · rename_i hnone
    constructor
    · intro h
      cases h
    · rintro ⟨entries, rfl, -⟩
      exact absurd rfl (hnone entries)

theorem mem_targets {manifest t : Value} :
    t ∈ targets manifest ↔
      ∃ entries name, manifest.get? "target" = some (.table entries) ∧ (name, t) ∈ entries := by
  unfold targets
  split
  · rename_i entries htarget
    rw [htarget]
    simp
  · rename_i hnone
    constructor
    · intro h
      cases h
    · rintro ⟨entries, _, htarget, -⟩
      exact absurd htarget (hnone entries)

/-- Tables of one purpose are looked for in the manifest and in its targets, and only those without a
special purpose in the workspace too. -/
theorem holds_iff {manifest : Value} {purpose : Purpose} {entries : Table} :
    Holds manifest purpose entries ↔
      (∃ v ∈ manifest :: targets manifest, v.get? purpose.field = some (.table entries)) ∨
      purpose = .normal ∧
        ((manifest.get? "workspace").bind fun w => w.get? "dependencies") =
          some (.table entries) := by
  constructor
  · intro h
    cases h with
    | own table => exact Or.inl ⟨manifest, List.mem_cons_self, table⟩
    | workspace inner table => exact Or.inr ⟨rfl, by rw [inner]; exact table⟩
    | target inner mem table =>
      exact Or.inl ⟨_, List.mem_cons_of_mem _ (mem_targets.2 ⟨_, _, inner, mem⟩), table⟩
  · rintro (⟨v, hv, htable⟩ | ⟨rfl, hworkspace⟩)
    · rcases List.mem_cons.1 hv with rfl | hv
      · exact .own htable
      · obtain ⟨ts, name, hts, hmem⟩ := mem_targets.1 hv
        exact .target hts hmem htable
    · obtain ⟨w, hw, htable⟩ := Option.bind_eq_some_iff.1 hworkspace
      exact .workspace hw htable

/-- The crates that the manifest and its targets have in tables of one name. -/
theorem mem_flatMap_names {manifest : Value} {field crate : String} :
    crate ∈ (manifest :: targets manifest).flatMap (fun v => names (v.get? field)) ↔
      ∃ entries name, (∃ v ∈ manifest :: targets manifest, v.get? field = some (.table entries)) ∧
        Names entries name ∧ crateName name = crate := by
  rw [List.mem_flatMap]
  constructor
  · rintro ⟨v, hv, hcrate⟩
    obtain ⟨entries, htable, name, hname⟩ := mem_names.1 hcrate
    exact ⟨entries, name, ⟨v, hv, htable⟩, hname⟩
  · rintro ⟨entries, name, ⟨v, hv, htable⟩, hname⟩
    exact ⟨v, hv, mem_names.2 ⟨entries, htable, name, hname⟩⟩

theorem mem_neededFor {manifest : Value} {purpose : Purpose} {crate : String} :
    crate ∈ (dependencies manifest).neededFor purpose ↔
      ∃ entries name, Holds manifest purpose entries ∧ Names entries name ∧
        crateName name = crate := by
  simp only [holds_iff]
  cases purpose with
  | normal =>
    unfold dependencies Dependencies.neededFor
    rw [List.mem_append]
    constructor
    · rintro (h | h)
      · obtain ⟨entries, name, htable, hname⟩ := mem_flatMap_names.1 h
        exact ⟨entries, name, Or.inl htable, hname⟩
      · obtain ⟨entries, htable, name, hname⟩ := mem_names.1 h
        exact ⟨entries, name, Or.inr ⟨rfl, htable⟩, hname⟩
    · rintro ⟨entries, name, htable | ⟨-, htable⟩, hname⟩
      · exact Or.inl (mem_flatMap_names.2 ⟨entries, name, htable, hname⟩)
      · exact Or.inr (mem_names.2 ⟨entries, htable, name, hname⟩)
  | dev =>
    simp only [reduceCtorEq, false_and, or_false]
    exact mem_flatMap_names
  | build =>
    simp only [reduceCtorEq, false_and, or_false]
    exact mem_flatMap_names

/-- A crate belongs to a manifest exactly if one of its dependency tables has an entry that goes by
its name, where `_` stands for `-` in both. For each purpose, the manifest has exactly the names of
the tables of this purpose, with `_` for `-`. What is no table is passed over. -/
theorem dependencies_exact (manifest : Value) :
    (∀ crate, (dependencies manifest).contains crate = true ↔
      ∃ purpose entries name, Holds manifest purpose entries ∧ Names entries name ∧
        undashed name = undashed crate) ∧
    ∀ purpose crate, crate ∈ (dependencies manifest).neededFor purpose ↔
      ∃ entries name, Holds manifest purpose entries ∧ Names entries name ∧
        crate.toList = undashed name := by
  refine ⟨fun crate => ?_, fun purpose crate => ?_⟩
  · rw [Dependencies.contains_iff]
    refine exists_congr fun purpose => ?_
    simp only [mem_neededFor, crateName_eq_iff, toList_crateName, @eq_comm _ (undashed crate)]
  · simp only [mem_neededFor, crateName_eq_iff]

end Manifest

end TidyUse
