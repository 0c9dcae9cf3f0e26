import TidyUse.Proofs.Merging

/-!
# The best import of each key

* `Target.Leads` : the earliest of the imports of a key whose names rank highest;
* `Target.resolve_cases` : of two imports, the later one is taken only for a better name;
* `Target.Winners.leads_insert`, `Target.leads_deduplicate` : what one more import changes, and what
  is left of all of them;
* `Target.deduplicate_exact` : deduplication fails on two explicit names for one key and on nothing
  else, and otherwise leaves the earliest of the best.
-/

namespace TidyUse.Target

variable {ts us vs : List Target} {t u : Target}

/-- The earliest of the imports of its key whose names are best: explicit names over none over `_`. -/
def Leads (ts : List Target) (u : Target) : Prop :=
  ∃ before after, ts = before ++ u :: after ∧
    (∀ t ∈ before, t.key = u.key → Outranks u.rename t.rename) ∧
    ∀ t ∈ after, t.key = u.key → ¬ Outranks t.rename u.rename

theorem leads_iff : Leads ts u ↔ ∃ before after, ts = before ++ u :: after ∧
    (∀ t ∈ before, t.key = u.key → renameRank t.rename < renameRank u.rename) ∧
    ∀ t ∈ after, t.key = u.key → renameRank t.rename ≤ renameRank u.rename := by
  simp only [Leads, outranks_iff, Nat.not_lt]

theorem Leads.rank_le (h : Leads ts u) (ht : t ∈ ts) (hkey : t.key = u.key) :
    renameRank t.rename ≤ renameRank u.rename := by
  obtain ⟨before, after, rfl, hbefore, hafter⟩ := leads_iff.1 h
  rcases List.mem_append.1 ht with ht | ht
  · exact Nat.le_of_lt (hbefore t ht hkey)
  · rcases List.mem_cons.1 ht with rfl | ht
    · exact Nat.le_refl _
    · exact hafter t ht hkey

/-- An import of another key, or one without a better name, changes nothing. -/
theorem Leads.concat (h : Leads ts u)
    (ht : t.key = u.key → renameRank t.rename ≤ renameRank u.rename) : Leads (ts ++ [t]) u := by
  obtain ⟨before, after, rfl, hbefore, hafter⟩ := leads_iff.1 h
  refine leads_iff.2 ⟨before, after ++ [t], by simp, hbefore, fun x hx hkey => ?_⟩
  rcases List.mem_append.1 hx with hx | hx
  · exact hafter x hx hkey
  · rw [List.mem_singleton] at hx
    subst hx
    exact ht hkey

/-- An import with a better name than all before it takes the lead. -/
theorem leads_concat_self
    (h : ∀ x ∈ ts, x.key = t.key → renameRank x.rename < renameRank t.rename) :
    Leads (ts ++ [t]) t :=
  leads_iff.2 ⟨ts, [], rfl, h, fun _ hx => absurd hx List.not_mem_nil⟩

/-- The older import stays unless the newer one has a better name. -/
theorem resolve_cases {old new : Target} (h : old.resolve new = .ok u) :
    u = old ∧ renameRank new.rename ≤ renameRank old.rename ∨
      u = new ∧ renameRank old.rename < renameRank new.rename := by
  unfold resolve at h
  split at h
  · rename_i hsame
    cases h
    exact Or.inl ⟨rfl, by rw [hsame]⟩
  · split at h
    · cases h
    · split at h
      · rename_i hlt
        cases h
        exact Or.inr ⟨rfl, hlt⟩
      · rename_i hlt
        cases h
        exact Or.inl ⟨rfl, Nat.le_of_not_lt hlt⟩

/-- One more import leaves one leader for each key. -/
theorem Winners.leads_insert (hw : Winners ts us) (hlead : ∀ u ∈ us, Leads ts u)
    (h : Target.insert t us = .ok vs) : ∀ v ∈ vs, Leads (ts ++ [t]) v := by
  have hkeys : t.key ∈ us.map key ↔ t.key ∈ ts.map key := by rw [hw.keys, mem_distinct]
  intro v hv
  rcases insert_ok h with ⟨hnew, rfl⟩ | ⟨pre, u, post, w, rfl, hkey, hr, rfl⟩
  · rcases List.mem_append.1 hv with hv | hv
    · refine (hlead v hv).concat fun hk => ?_
      exact absurd (List.mem_map.2 ⟨v, hv, hk.symm⟩) hnew
    · rw [List.mem_singleton] at hv
      subst hv
      rw [hkeys] at hnew
      exact leads_concat_self fun x hx hk => absurd (List.mem_map.2 ⟨x, hx, hk⟩) hnew
  · -- the keys of the winners are different, so `u` alone has the key of `t`
    have hnodup : ((pre ++ u :: post).map key).Nodup := hw.keys ▸ nodup_distinct _
    rw [((List.perm_middle (a := u)).map key).nodup_iff, List.map_cons, List.nodup_cons] at hnodup
    have hother : ∀ x ∈ pre ++ post, Leads (ts ++ [t]) x := by
      intro x hx
      have hmem : x ∈ pre ++ u :: post := by
        rw [List.perm_middle.mem_iff]
        exact List.mem_cons_of_mem u hx
      refine (hlead x hmem).concat fun hk => ?_
      exact absurd (List.mem_map.2 ⟨x, hx, hk.symm.trans hkey.symm⟩) hnodup.1
    have hu : Leads ts u := hlead u (List.mem_append_right _ List.mem_cons_self)
    rw [List.perm_middle.mem_iff] at hv
    rcases List.mem_cons.1 hv with rfl | hv
    · rcases resolve_cases hr with ⟨rfl, hle⟩ | ⟨rfl, hlt⟩
      · exact hu.concat fun _ => hle
      · exact leads_concat_self fun x hx hk =>
          Nat.lt_of_le_of_lt (hu.rank_le hx (hk.trans hkey.symm)) hlt
    · exact hother v hv

/-- What deduplication leaves is in the lead. -/
theorem leads_deduplicate (h : deduplicate ts = .ok us) : ∀ u ∈ us, Leads ts u := by
  induction ts using List.reverseRecOn generalizing us with
  | nil =>
    cases h
    exact fun u hu => absurd hu List.not_mem_nil
  | append_singleton ts t ih =>
    rw [deduplicate_append_singleton] at h
    cases hd : deduplicate ts with
    | error c =>
      rw [hd] at h
      cases h
    | ok ws =>
      rw [hd] at h
      exact (deduplicate_ok hd).leads_insert (ih hd) h

theorem conflicting_iff : Conflicting ts ↔
    ∃ t ∈ ts, ∃ u ∈ ts, t.key = u.key ∧ t.Explicit ∧ u.Explicit ∧ t.rename ≠ u.rename := by
  simp only [explicit_iff]
  exact Iff.rfl

/-- Deduplication fails exactly if two imports of one key have different explicit names, wherever
they stand. Otherwise there is one import for each key, in the order in which the keys appear first,
and it is the earliest of those with the best names: explicit ones over none over `_`. -/
theorem deduplicate_exact (ts : List Target) :
    ((∃ c, deduplicate ts = .error c) ↔
        ∃ t ∈ ts, ∃ u ∈ ts, t.key = u.key ∧ t.Explicit ∧ u.Explicit ∧ t.rename ≠ u.rename) ∧
      ((∀ t ∈ ts, ∀ u ∈ ts, t.key = u.key → t.Explicit → u.Explicit → t.rename = u.rename) →
        ∃ us, deduplicate ts = .ok us ∧ us.map key = distinct (ts.map key) ∧
          ∀ u ∈ us, Leads ts u) := by
  constructor
  · rw [← conflicting_iff]
    constructor
    · rintro ⟨c, hc⟩
      exact deduplicate_error hc
    · intro hconf
      cases hd : deduplicate ts with
      | error c => exact ⟨c, rfl⟩
      | ok us => exact absurd hconf (deduplicate_ok hd).not_conflicting
  · intro hagree
    have hnone : ¬ Conflicting ts := by
      rw [conflicting_iff]
      rintro ⟨t, ht, u, hu, hkey, hexp, hexp', hne⟩
      exact hne (hagree t ht u hu hkey hexp hexp')
    obtain ⟨us, hus⟩ := exists_deduplicate_of_not_conflicting hnone
    exact ⟨us, hus, (deduplicate_ok hus).keys, leads_deduplicate hus⟩

end TidyUse.Target
