import Mathlib.Data.List.Induction
import TidyUse.Statement.Merge
import TidyUse.Proofs.Bare
import TidyUse.Target.Rename

/-!
# One import for each key

* `Target.Conflicting` : two explicit names for one key;
* `Target.Winners` : what is left is one import for each key, with the best name there is;
* `Target.deduplicate_ok`, `Target.deduplicate_error` : either the winners or a conflict.
-/

namespace TidyUse

/-! ## Members, each once -/

section Distinct

variable {α : Type} [BEq α] [LawfulBEq α]

@[simp] theorem mem_distinct {a : α} {l : List α} : a ∈ distinct l ↔ a ∈ l := by
  rw [distinct, List.mem_eraseDups]

theorem distinct_append_singleton (l : List α) (a : α) [Decidable (a ∈ l)] :
    distinct (l ++ [a]) = if a ∈ l then distinct l else distinct l ++ [a] := by
  rw [distinct, List.eraseDups_append]
  by_cases h : a ∈ l
  · simp [List.removeAll, h, distinct]
  · simp [List.removeAll, h, distinct, List.eraseDups_cons]

theorem nodup_distinct (l : List α) : (distinct l).Nodup := by
  classical
  induction l using List.reverseRecOn with
  | nil => exact List.nodup_nil
  | append_singleton l a ih =>
    rw [distinct_append_singleton]
    split
    · exact ih
    · rename_i h
      refine List.nodup_append.2 ⟨ih, List.pairwise_singleton _ a, fun x hx y hy hxy => h ?_⟩
      rw [← List.mem_singleton.1 hy, ← hxy]
      exact mem_distinct.1 hx

theorem distinct_sublist (l : List α) : (distinct l).Sublist l := by
  classical
  induction l using List.reverseRecOn with
  | nil => exact List.Sublist.refl _
  | append_singleton l a ih =>
    rw [distinct_append_singleton]
    split
    · exact ih.trans (List.sublist_append_left _ _)
    · exact ih.append (List.Sublist.refl _)

end Distinct

namespace Target

def Conflicting (ts : List Target) : Prop :=
  ∃ t ∈ ts, ∃ u ∈ ts, t.key = u.key ∧ renameRank t.rename = 2 ∧ renameRank u.rename = 2 ∧
    t.rename ≠ u.rename

theorem Conflicting.mono {ts us : List Target} (h : Conflicting ts) (hsub : ts ⊆ us) :
    Conflicting us := by
  obtain ⟨t, ht, u, hu, hrest⟩ := h
  exact ⟨t, hsub ht, u, hsub hu, hrest⟩

/-- One import for each key, with a name that no import of the key beats. -/
structure Winners (ts us : List Target) : Prop where
  keys : us.map key = distinct (ts.map key)
  mem : ∀ u ∈ us, u ∈ ts
  best : ∀ u ∈ us, ∀ t ∈ ts, t.key = u.key →
    renameRank t.rename ≤ renameRank u.rename ∧ (renameRank t.rename = 2 → t.rename = u.rename)

theorem renameRank_le_two (r : Option String) : renameRank r ≤ 2 := by
  cases r with
  | none => simp [renameRank]
  | some name => simp only [renameRank]; split <;> omega

/-- What resolving picks. -/
theorem resolve_ok {old new u : Target} (h : old.resolve new = .ok u) :
    (u = old ∨ u = new) ∧
      (renameRank old.rename ≤ renameRank u.rename ∧
        (renameRank old.rename = 2 → old.rename = u.rename)) ∧
      (renameRank new.rename ≤ renameRank u.rename ∧
        (renameRank new.rename = 2 → new.rename = u.rename)) := by
  have hle := renameRank_le_two old.rename
  have hle' := renameRank_le_two new.rename
  unfold resolve at h
  split at h
  · rename_i heq
    cases h
    exact ⟨Or.inl rfl, ⟨Nat.le_refl _, fun _ => rfl⟩, heq ▸ Nat.le_refl _, fun _ => heq.symm⟩
  · split at h
    · cases h
    · rename_i hboth
      split at h
      · rename_i hlt
        cases h
        exact ⟨Or.inr rfl, ⟨by omega, fun h2 => by omega⟩, Nat.le_refl _, fun _ => rfl⟩
      · rename_i hlt
        cases h
        exact ⟨Or.inl rfl, ⟨Nat.le_refl _, fun _ => rfl⟩, by omega, fun h2 => absurd h2 (by omega)⟩

/-- Resolving fails on two explicit names. -/
theorem resolve_error {old new : Target} {c : Conflict} (h : old.resolve new = .error c) :
    renameRank old.rename = 2 ∧ renameRank new.rename = 2 ∧ old.rename ≠ new.rename := by
  unfold resolve at h
  split at h
  · cases h
  · split at h
    · rename_i hne hboth
      exact ⟨hboth.1, hboth.2, hne⟩
    · split at h <;> cases h

/-- An insertion changes the import of its key, or adds one. -/
theorem insert_ok {t : Target} {us vs : List Target} (h : insert t us = .ok vs) :
    (t.key ∉ us.map key ∧ vs = us ++ [t]) ∨
      ∃ pre u post v, us = pre ++ u :: post ∧ u.key = t.key ∧ u.resolve t = .ok v ∧
        vs = pre ++ v :: post := by
  induction us generalizing vs with
  | nil =>
    cases h
    exact Or.inl ⟨by simp, rfl⟩
  | cons u us ih =>
    unfold insert at h
    split at h
    · rename_i hkey
      cases hr : u.resolve t with
      | error c => rw [hr] at h; cases h
      | ok v =>
        rw [hr] at h
        cases h
        exact Or.inr ⟨[], u, us, v, rfl, hkey, hr, rfl⟩
    · rename_i hkey
      cases hi : insert t us with
      | error c => rw [hi] at h; cases h
      | ok ws =>
        rw [hi] at h
        cases h
        rcases ih hi with ⟨hnew, rfl⟩ | ⟨pre, w, post, v, rfl, hw, hr, rfl⟩
        · refine Or.inl ⟨?_, rfl⟩
          rw [List.map_cons, List.mem_cons, not_or]
          exact ⟨fun h => hkey h.symm, hnew⟩
        · exact Or.inr ⟨u :: pre, w, post, v, rfl, hw, hr, rfl⟩

theorem insert_error {t : Target} {us : List Target} {c : Conflict} (h : insert t us = .error c) :
    ∃ u ∈ us, u.key = t.key ∧ u.resolve t = .error c := by
  induction us with
  | nil => cases h
  | cons u us ih =>
    unfold insert at h
    split at h
    · rename_i hkey
      cases hr : u.resolve t with
      | error d =>
        rw [hr] at h
        cases h
        exact ⟨u, List.mem_cons_self, hkey, hr⟩
      | ok v => rw [hr] at h; cases h
    · cases hi : insert t us with
      | error d =>
        rw [hi] at h
        cases h
        obtain ⟨w, hw, hrest⟩ := ih hi
        exact ⟨w, List.mem_cons_of_mem _ hw, hrest⟩
      | ok ws => rw [hi] at h; cases h

theorem deduplicate_append_singleton (ts : List Target) (t : Target) :
    deduplicate (ts ++ [t]) = deduplicate ts >>= insert t := by
  rw [deduplicate, deduplicate, List.foldlM_append]
  cases ts.foldlM (fun us t => insert t us) [] with
  | error c => rfl
  | ok us =>
    show List.foldlM (fun us t => insert t us) us [t] = insert t us
    rw [List.foldlM_cons]
    cases insert t us <;> rfl

/-- An insertion keeps the winners. -/
theorem Winners.insert {ts us vs : List Target} {t : Target} (hw : Winners ts us)
    (h : Target.insert t us = .ok vs) : Winners (ts ++ [t]) vs := by
  classical
  have hmem : t.key ∈ us.map key ↔ t.key ∈ ts.map key := by rw [hw.keys, mem_distinct]
  rcases insert_ok h with ⟨hnew, rfl⟩ | ⟨pre, u, post, v, rfl, hkey, hr, rfl⟩
  · rw [hmem] at hnew
    refine ⟨?_, fun w hw' => ?_, fun w hw' x hx hk => ?_⟩
    · rw [List.map_append, List.map_append, List.map_singleton, distinct_append_singleton,
        if_neg hnew, hw.keys]
    · rcases List.mem_append.1 hw' with hw' | hw'
      · exact List.mem_append_left _ (hw.mem w hw')
      · exact List.mem_append_right _ hw'
    · rcases List.mem_append.1 hw' with hw' | hw' <;> rcases List.mem_append.1 hx with hx | hx
      · exact hw.best w hw' x hx hk
      · rw [List.mem_singleton.1 hx] at hk
        exact absurd (List.mem_map.2 ⟨w, hw.mem w hw', hk.symm⟩) hnew
      · rw [List.mem_singleton.1 hw'] at hk
        exact absurd (List.mem_map.2 ⟨x, hx, hk⟩) hnew
      · rw [List.mem_singleton.1 hw', List.mem_singleton.1 hx]
        exact ⟨Nat.le_refl _, fun _ => rfl⟩
  · obtain ⟨hv, ⟨hold, hold'⟩, hnew, hnew'⟩ := resolve_ok hr
    have hvkey : v.key = u.key := by rcases hv with rfl | rfl <;> simp [hkey]
    have hu : u ∈ pre ++ u :: post := List.mem_append_right _ List.mem_cons_self
    have hold_mem : t.key ∈ ts.map key := hmem.1 (hkey ▸ List.mem_map.2 ⟨u, hu, rfl⟩)
    -- the keys of the old winners are different, so `u` alone has the key of `t`
    have hnodup : ((pre ++ u :: post).map key).Nodup := hw.keys ▸ nodup_distinct _
    refine ⟨?_, fun w hw' => ?_, fun w hw' x hx hk => ?_⟩
    · have hkeys : (pre ++ v :: post).map key = (pre ++ u :: post).map key := by simp [hvkey]
      have hsame := distinct_append_singleton (ts.map key) t.key
      rw [if_pos hold_mem] at hsame
      rw [hkeys, hw.keys, ← hsame, List.map_append, List.map_singleton]
    · rcases List.mem_append.1 hw' with hw' | hw'
      · exact List.mem_append_left _ (hw.mem w (List.mem_append_left _ hw'))
      · rcases List.mem_cons.1 hw' with rfl | hw'
        · rcases hv with rfl | rfl
          · exact List.mem_append_left _ (hw.mem _ hu)
          · exact List.mem_append_right _ List.mem_cons_self
        · exact List.mem_append_left _
            (hw.mem w (List.mem_append_right _ (List.mem_cons_of_mem _ hw')))
    · have other : w ∈ pre ++ post →
          renameRank x.rename ≤ renameRank w.rename ∧
            (renameRank x.rename = 2 → x.rename = w.rename) := by
        intro hin
        have hw'' : w ∈ pre ++ u :: post := by
          rcases List.mem_append.1 hin with h | h
          · exact List.mem_append_left _ h
          · exact List.mem_append_right _ (List.mem_cons_of_mem _ h)
        rcases List.mem_append.1 hx with hx | hx
        · exact hw.best w hw'' x hx hk
        · rw [List.mem_singleton.1 hx, ← hkey] at hk
          have hperm : (pre ++ u :: post).Perm (u :: (pre ++ post)) := List.perm_middle
          rw [(hperm.map key).nodup_iff, List.map_cons, List.nodup_cons] at hnodup
          exact absurd (List.mem_map.2 ⟨w, hin, hk.symm⟩) hnodup.1
      rcases List.mem_append.1 hw' with hw' | hw'
      · exact other (List.mem_append_left _ hw')
      · rcases List.mem_cons.1 hw' with rfl | hw'
        · rcases List.mem_append.1 hx with hx | hx
          · obtain ⟨hb, hb'⟩ := hw.best u hu x hx (hk.trans hvkey)
            refine ⟨Nat.le_trans hb hold, fun h2 => ?_⟩
            have hrank := renameRank_le_two u.rename
            rw [hb' h2, hold' (by omega)]
          · rw [List.mem_singleton.1 hx]
            exact ⟨hnew, hnew'⟩
        · exact other (List.mem_append_right _ hw')

/-- Deduplication either gives the winners or meets a conflict. -/
theorem deduplicate_spec (ts : List Target) :
    (∃ us, deduplicate ts = .ok us ∧ Winners ts us) ∨
      ∃ c, deduplicate ts = .error c ∧ Conflicting ts := by
  induction ts using List.reverseRecOn with
  | nil => exact Or.inl ⟨[], rfl, rfl, by simp, by simp⟩
  | append_singleton ts t ih =>
    rw [deduplicate_append_singleton]
    rcases ih with ⟨us, hus, hw⟩ | ⟨c, hc, hconf⟩
    · rw [hus]
      cases hi : insert t us with
      | ok vs => exact Or.inl ⟨vs, hi, hw.insert hi⟩
      | error c =>
        obtain ⟨u, hu, hkey, hr⟩ := insert_error hi
        obtain ⟨hold, hnew, hne⟩ := resolve_error hr
        exact Or.inr ⟨c, hi, u, List.mem_append_left _ (hw.mem u hu), t,
          List.mem_append_right _ List.mem_cons_self, hkey, hold, hnew, hne⟩
    · rw [hc]
      exact Or.inr ⟨c, rfl, hconf.mono (List.subset_append_left _ _)⟩

theorem Winners.not_conflicting {ts us : List Target} (hw : Winners ts us) : ¬ Conflicting ts := by
  rintro ⟨t, ht, u, hu, hkey, htwo, htwo', hne⟩
  have hmem : t.key ∈ us.map key := by rw [hw.keys, mem_distinct]; exact List.mem_map.2 ⟨t, ht, rfl⟩
  obtain ⟨w, hw', hwkey⟩ := List.mem_map.1 hmem
  have hwt := (hw.best w hw' t ht hwkey.symm).2 htwo
  have hwu := (hw.best w hw' u hu (hkey.symm.trans hwkey.symm)).2 htwo'
  exact hne (hwt.trans hwu.symm)

theorem deduplicate_ok {ts us : List Target} (h : deduplicate ts = .ok us) : Winners ts us := by
  rcases deduplicate_spec ts with ⟨vs, hvs, hw⟩ | ⟨c, hc, -⟩
  · rw [h] at hvs
    cases hvs
    exact hw
  · rw [h] at hc
    cases hc

theorem deduplicate_error {ts : List Target} {c : Conflict} (h : deduplicate ts = .error c) :
    Conflicting ts := by
  rcases deduplicate_spec ts with ⟨vs, hvs, -⟩ | ⟨d, -, hconf⟩
  · rw [h] at hvs
    cases hvs
  · exact hconf

theorem exists_deduplicate_of_not_conflicting {ts : List Target} (h : ¬ Conflicting ts) :
    ∃ us, deduplicate ts = .ok us := by
  rcases deduplicate_spec ts with ⟨us, hus, -⟩ | ⟨c, -, hconf⟩
  · exact ⟨us, hus⟩
  · exact absurd hconf h

/-- Imports of different keys are left alone. -/
theorem deduplicate_of_nodup {ts : List Target} (h : (ts.map key).Nodup) :
    deduplicate ts = .ok ts := by
  induction ts using List.reverseRecOn with
  | nil => rfl
  | append_singleton ts t ih =>
    rw [List.map_append, List.map_singleton, List.nodup_append] at h
    rw [deduplicate_append_singleton, ih h.1]
    have hnew : t.key ∉ ts.map key := fun hm => h.2.2 _ hm _ (List.mem_singleton_self _) rfl
    have insert_new : ∀ us : List Target, t.key ∉ us.map key → insert t us = .ok (us ++ [t]) := by
      intro us hus
      induction us with
      | nil => rfl
      | cons u us ih =>
        rw [List.map_cons, List.mem_cons, not_or] at hus
        rw [insert, if_neg (fun h => hus.1 h.symm), ih hus.2]
        rfl
    exact insert_new ts hnew

end Target

end TidyUse
