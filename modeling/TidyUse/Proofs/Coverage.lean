import TidyUse.Proofs.Course
import TidyUse.Proofs.Positions

/-!
# What a survey covers

* `Sighting.top`, `Sighting.bottom` : the rows of a sighting; `Run.lies` : its lines stand there;
* `Run.split` : the step that made a sighting;
* `Run.pairwise` : sightings come in the order of the document;
* `Run.covers` : every row that a run leaves behind is that of a sighting;
* `Run.opened` : where the line of a declaration starts.
-/

namespace TidyUse.Document

open Text

namespace Sighting

def above : Sighting → List Line
  | passed above _ => above
  | comment above _ _ => above
  | declaration above _ _ _ _ => above

def lines : Sighting → List Line
  | passed _ line => [line]
  | comment _ line more => line :: more
  | declaration _ before first more after => rows before first more after

/-- How many rows follow the first. -/
def height : Sighting → Nat
  | passed _ _ => 0
  | comment _ _ more => more.length
  | declaration _ _ _ more _ => more.length

def top (s : Sighting) : Nat := s.above.length

def bottom (s : Sighting) : Nat := s.top + s.height

theorem length_lines (s : Sighting) : s.lines.length = s.height + 1 := by
  cases s with
  | passed above line => rfl
  | comment above line more => rfl
  | declaration above before first more after =>
    rw [lines, ← fringe_cons, length_fringe]
    rfl

theorem top_le_bottom (s : Sighting) : s.top ≤ s.bottom := Nat.le_add_right _ _

/-- Where a sighting starts. A line or a comment is met as a whole. -/
def start : Sighting → Position
  | passed above _ => ⟨above.length, 0⟩
  | comment above _ _ => ⟨above.length, 0⟩
  | declaration above before _ _ _ => ⟨above.length, before.length⟩

/-- Where a sighting ends: at the start of a line, or behind a declaration. -/
def stop : Sighting → Position
  | passed above _ => ⟨(above.length + 1 : Nat), 0⟩
  | comment above _ more => ⟨(above.length + more.length + 1 : Nat), 0⟩
  | declaration above before first more _ => (placed above before (first :: more)).stop

/-- The sighting is a declaration to organize. -/
def isOrganized (s : Sighting) : Bool := (s.item?.bind Item.organized?).isSome

def isDeclaration : Sighting → Bool
  | declaration _ _ _ _ _ => true
  | _ => false

/-- The lines of the document, with those of the sighting in their place. -/
def Lies (s : Sighting) (ls : List Line) : Prop := ∃ below, ls = s.above.reverse ++ (s.lines ++ below)

end Sighting

def State.position (st : State) : Position :=
  match st.place with
  | .line _ => ⟨st.above.length, 0⟩
  | .declaration before _ _ => ⟨st.above.length, before.length⟩
  | .code before _ _ => ⟨st.above.length, before.length⟩

/-! ## Steps -/

/-- A step meets one thing at most. -/
theorem Step.sightings {st st' : State} {ss : List Sighting} (h : Step st ss st') :
    ss = [] ∨ ∃ s, ss = [s] := by
  cases h with
  | start _ => exact Or.inl rfl
  | skip _ => exact Or.inr ⟨_, rfl⟩
  | comment _ => exact Or.inr ⟨_, rfl⟩
  | finish _ _ => exact Or.inr ⟨_, rfl⟩
  | next _ _ _ => exact Or.inr ⟨_, rfl⟩
  | stop _ _ => exact Or.inr ⟨_, rfl⟩

/-- What is met stands below the lines above. -/
theorem Step.lies {st st' : State} {s : Sighting} (h : Step st [s] st') :
    s.above = st.above ∧ s.Lies st.lines := by
  cases h with
  | skip _ => exact ⟨rfl, _, rfl⟩
  | comment _ => exact ⟨rfl, _, rfl⟩
  | finish stands _ => exact ⟨rfl, _, by rw [State.lines, Place.lines, stands.rows]; rfl⟩
  | next stands _ _ => exact ⟨rfl, _, by rw [State.lines, Place.lines, stands.rows]; rfl⟩
  | stop stands _ => exact ⟨rfl, _, by rw [State.lines, Place.lines, stands.rows]; rfl⟩

/-- A declaration is met by a survey that stands at it. -/
theorem Step.exists_stands {st st' : State} {above : List Line} {before first : List Char}
    {more : List Line} {after : List Char}
    (h : Step st [.declaration above before first more after] st') :
    ∃ found rest below below', st = ⟨found, above, .declaration before rest below⟩ ∧
      Stands before rest below first more after below' := by
  cases h with
  | finish stands _ => exact ⟨_, _, _, _, rfl, stands⟩
  | next stands _ _ => exact ⟨_, _, _, _, rfl, stands⟩
  | stop stands _ => exact ⟨_, _, _, _, rfl, stands⟩

/-- The step that made a sighting. -/
theorem Run.split {st st'' : State} {ss ss' : List Sighting} {s : Sighting}
    (h : Run st (ss ++ s :: ss') st'') :
    ∃ st₁ st₂, Run st ss st₁ ∧ Step st₁ [s] st₂ ∧ Run st₂ ss' st'' := by
  generalize hall : ss ++ s :: ss' = all at h
  induction h generalizing ss with
  | nil => simp at hall
  | @cons st st' st'' as bs step run ih =>
    rcases step.sightings with rfl | ⟨a, rfl⟩
    · obtain ⟨st₁, st₂, hrun, hstep, hrest⟩ := ih hall
      exact ⟨st₁, st₂, .cons step hrun, hstep, hrest⟩
    · cases ss with
      | nil =>
        obtain ⟨rfl, rfl⟩ := List.cons.inj hall
        exact ⟨st, st', .nil, step, run⟩
      | cons b ss =>
        obtain ⟨rfl, htail⟩ := List.cons.inj hall
        obtain ⟨st₁, st₂, hrun, hstep, hrest⟩ := ih htail
        exact ⟨st₁, st₂, .cons step hrun, hstep, hrest⟩

/-- The lines of a sighting stand in the document. -/
theorem Run.lies {st st' : State} {ss : List Sighting} (h : Run st ss st') {s : Sighting}
    (hs : s ∈ ss) : s.Lies st.lines := by
  obtain ⟨ss₁, ss₂, rfl⟩ := List.append_of_mem hs
  obtain ⟨st₁, st₂, hrun, hstep, -⟩ := h.split
  rw [← hrun.lines_eq]
  exact hstep.lies.2

/-! ## Order -/

theorem Sighting.start_le_stop (s : Sighting) : s.start ≤ s.stop := by
  cases s with
  | passed above line =>
    simp only [Sighting.start, Sighting.stop, Position.le_def]
    omega
  | comment above line more =>
    simp only [Sighting.start, Sighting.stop, Position.le_def]
    omega
  | declaration above before first more after =>
    simp only [Sighting.start, Sighting.stop, placed, Position.le_def]
    cases more with
    | nil =>
      rw [lastRow, List.length_append, List.length_nil]
      omega
    | cons next more =>
      rw [List.length_cons]
      omega

/-- What is met starts where the survey stands, and ends where it goes on at the latest. -/
theorem Step.order {st st' : State} {s : Sighting} (h : Step st [s] st') :
    s.start = st.position ∧ s.stop ≤ st'.position := by
  cases h with
  | skip _ => exact ⟨rfl, Position.le_refl _⟩
  | comment _ =>
    refine ⟨rfl, ?_⟩
    simp only [State.position, Sighting.stop, Position.le_def, List.length_append,
      List.length_reverse, List.length_cons]
    omega
  | @finish found above before rest first after below more below' _ _ =>
    have hlen : (Document.rows before first more after).length = more.length + 1 := by
      rw [← fringe_cons, length_fringe, List.length_cons]
    refine ⟨rfl, ?_⟩
    simp only [State.position, Sighting.stop, placed, Position.le_def, List.length_append,
      List.length_reverse, hlen]
    omega
  | next _ _ _ =>
    refine ⟨rfl, ?_⟩
    simp only [State.position, Sighting.stop, placed, Position.le_def, List.length_append,
      List.length_reverse, length_leadRows]
    omega
  | stop _ _ =>
    refine ⟨rfl, ?_⟩
    simp only [State.position, Sighting.stop, placed, Position.le_def, List.length_append,
      List.length_reverse, length_leadRows]
    omega

theorem Step.position_le {st st' : State} {ss : List Sighting} (h : Step st ss st') :
    st.position ≤ st'.position := by
  rcases h.sightings with rfl | ⟨s, rfl⟩
  · cases h with
    | start _ => simp [State.position, Position.le_def]
  · obtain ⟨hstart, hstop⟩ := h.order
    rw [← hstart]
    exact Position.le_trans s.start_le_stop hstop

theorem Run.position_le {st st' : State} {ss : List Sighting} (h : Run st ss st') :
    st.position ≤ st'.position := by
  induction h with
  | nil => exact Position.le_refl _
  | cons step _ ih => exact Position.le_trans step.position_le ih

/-- What is met starts where the run does at the earliest, and ends where it ends at the latest. -/
theorem Run.between {st st' : State} {ss : List Sighting} (h : Run st ss st') {s : Sighting}
    (hs : s ∈ ss) : st.position ≤ s.start ∧ s.stop ≤ st'.position := by
  obtain ⟨ss₁, ss₂, rfl⟩ := List.append_of_mem hs
  obtain ⟨st₁, st₂, hrun, hstep, hrest⟩ := h.split
  obtain ⟨hstart, hstop⟩ := hstep.order
  exact ⟨hstart ▸ hrun.position_le, Position.le_trans hstop hrest.position_le⟩

/-- Sightings come in the order of the document. -/
theorem Run.pairwise {st st' : State} {ss : List Sighting} (h : Run st ss st') :
    ss.Pairwise fun s t => s.stop ≤ t.start := by
  induction h with
  | nil => exact .nil
  | cons step run ih =>
    rcases step.sightings with rfl | ⟨s, rfl⟩
    · exact ih
    · exact .cons (fun t ht => Position.le_trans step.order.2 (run.between ht).1) ih

/-! ## Rows -/

/-- Every row that a run leaves behind is that of a sighting. -/
theorem Run.covers {st st' : State} {ss : List Sighting} (h : Run st ss st') {r : Nat}
    (hr : st.above.length ≤ r) (hr' : r < st'.above.length) :
    ∃ s ∈ ss, s.top ≤ r ∧ r ≤ s.bottom := by
  induction h with
  | nil => omega
  | @cons st st₁ st₂ ss ss' step run ih =>
    by_cases hlow : st₁.above.length ≤ r
    · obtain ⟨s, hs, hle⟩ := ih hlow hr'
      exact ⟨s, List.mem_append_right _ hs, hle⟩
    · rcases step.sightings with rfl | ⟨s, rfl⟩
      · cases step with
        | start _ => exact absurd hr hlow
      · refine ⟨s, List.mem_cons_self, ?_, ?_⟩
        · rw [Sighting.top, step.lies.1]
          exact hr
        · have hbelow : st₁.above.length ≤ s.bottom + 1 := by
            rw [Sighting.bottom, Sighting.top, Nat.add_assoc, ← s.length_lines]
            cases step with
            | skip _ => simp [Sighting.above, Sighting.lines]
            | comment _ => simp [Sighting.above, Sighting.lines]; omega
            | finish _ _ => simp [Sighting.above, Sighting.lines]; omega
            | next _ _ _ => simp [Sighting.above, Sighting.lines, Document.rows]; omega
            | stop _ _ => simp [Sighting.above, Sighting.lines, Document.rows]; omega
          omega

/-- The row of a sighting in the document. -/
theorem Sighting.Lies.getElem? {s : Sighting} {ls : List Line} (h : s.Lies ls) {r : Nat}
    (hr : s.top ≤ r) (hr' : r ≤ s.bottom) : ls[r]? = s.lines[r - s.top]? := by
  obtain ⟨below, rfl⟩ := h
  have hlen := s.length_lines
  rw [Sighting.bottom] at hr'
  rw [List.getElem?_append_right (by rw [List.length_reverse]; exact hr), List.length_reverse,
    List.getElem?_append_left (by rw [hlen, ← Sighting.top]; omega)]
  rfl

theorem Sighting.isOrganized_declaration (above : List Line) (before first : List Char)
    (more : List Line) (after : List Char) :
    (Sighting.declaration above before first more after).isOrganized =
      (declared above before first more after).isStatement := by
  rw [Sighting.isOrganized, Sighting.item?, Option.bind_some, Item.organized?]
  split
  · rename_i h
    exact h.symm
  · rename_i h
    exact (Bool.eq_false_iff.2 h).symm

theorem Step.found_eq {st st' : State} {ss : List Sighting} (h : Step st ss st') :
    st'.found = (st.found || ss.any Sighting.isOrganized) := by
  cases h with
  | skip _ => simp [Sighting.isOrganized, Sighting.item?]
  | comment _ => simp [Sighting.isOrganized, Sighting.item?, commentItem, Item.organized?]
  | start _ => simp
  | finish _ _ => simp [Sighting.isOrganized_declaration]
  | next _ _ _ => simp [Sighting.isOrganized_declaration]
  | stop _ _ => simp [Sighting.isOrganized_declaration]

/-- A survey has found a declaration if it has met one to organize. -/
theorem Run.found_eq {st st' : State} {ss : List Sighting} (h : Run st ss st') :
    st'.found = (st.found || ss.any Sighting.isOrganized) := by
  induction h with
  | nil => simp
  | cons step _ ih => rw [ih, step.found_eq, List.any_append, Bool.or_assoc]

/-! ## Where declarations start -/

/-- Behind some sightings, a survey stands at a declaration that is the first on its line, or follows
another one there. -/
def State.Opened (prior : List Sighting) (st : State) : Prop :=
  ∀ before rest below, st.place = .declaration before rest below →
    (isPassable (before ++ rest) = false ∧ (st.found = true → isBlank before = true)) ∨
      isBlank before = false ∧
        ∃ e ∈ prior, e.isDeclaration = true ∧ e.bottom = st.above.length

theorem isBlank_lastRow {first : Line} {more : List Line} (h : Ends 0 first more)
    (before after : List Char) : isBlank (lastRow before first more ++ after) = false := by
  obtain ⟨x, hx⟩ := h.last before
  rw [hx, Bool.eq_false_iff]
  intro hblank
  have hsemi := List.all_eq_true.1 hblank ';' (by simp)
  revert hsemi
  decide

theorem Step.opened {st st' : State} {ss : List Sighting} (h : Step st ss st')
    (prior : List Sighting) : st'.Opened (prior ++ ss) := by
  intro before rest below hplace
  cases h with
  | skip _ => cases hplace
  | comment _ => cases hplace
  | finish _ _ => cases hplace
  | stop _ _ => cases hplace
  | start sight =>
    cases hplace
    obtain ⟨-, hpass, hfound⟩ := sight_eq_start sight
    rw [List.take_left] at hfound
    exact Or.inl ⟨hpass, hfound⟩
  | next stands _ _ =>
    cases hplace
    refine Or.inr ⟨isBlank_lastRow stands.ends _ _, _, List.mem_append_right _ List.mem_cons_self,
      rfl, ?_⟩
    simp [Sighting.bottom, Sighting.top, Sighting.above, Sighting.height, Nat.add_comm]

theorem Run.opened {st st' : State} {ss prior : List Sighting} (h : Run st ss st')
    (ho : st.Opened prior) : st'.Opened (prior ++ ss) := by
  induction h generalizing prior with
  | nil => simpa using ho
  | cons step _ ih =>
    rw [← List.append_assoc]
    exact ih (step.opened prior)

/-- A declaration is the first on its line, which then is nothing else, or follows another. -/
theorem Run.line_of_declaration {ls : List Line} {st : State} {ss ss' : List Sighting}
    {above : List Line} {before first : List Char} {more : List Line} {after : List Char}
    (h : Run (.initial ls) (ss ++ .declaration above before first more after :: ss') st) :
    ∃ line, ls[above.length]? = some line ∧
      (isPassable line = false ∧ (ss.any Sighting.isOrganized = true → isBlank before = true) ∨
        isBlank before = false ∧
          ∃ e ∈ ss, e.isDeclaration = true ∧ e.bottom = above.length) := by
  obtain ⟨st₁, st₂, hrun, hstep, -⟩ := h.split
  obtain ⟨found, rest, below, -, rfl, -⟩ := hstep.exists_stands
  have hinit : (State.initial ls).Opened [] := by
    intro _ _ _ hplace
    cases hplace
  have hopened := hrun.opened hinit
  have hfound := hrun.found_eq
  have hlines := hrun.lines_eq.trans (lines_initial ls)
  rw [List.nil_append] at hopened
  refine ⟨before ++ rest, ?_, ?_⟩
  · rw [← hlines, State.lines, Place.lines, List.getElem?_append_right (by simp),
      List.length_reverse, Nat.sub_self]
    rfl
  · rcases hopened before rest below rfl with ⟨hpass, hblank⟩ | ⟨hblank, e, he, hdecl, hbottom⟩
    · refine Or.inl ⟨hpass, fun hany => hblank ?_⟩
      rw [show found = _ from hfound, hany, Bool.or_true]
    · exact Or.inr ⟨hblank, e, he, hdecl, hbottom⟩

/-! ## Lines without interest and comments -/

/-- What a survey passes is blank, an attribute, or code above the imports. -/
theorem Run.passed {ls : List Line} {st : State} {ss ss' : List Sighting} {above : List Line}
    {line : Line} (h : Run (.initial ls) (ss ++ .passed above line :: ss') st) :
    isBlank line = true ∨ isAttributeLine line = true ∨
      ss.any Sighting.isOrganized = false ∧ isPassable line = false := by
  obtain ⟨st₁, st₂, hrun, hstep, -⟩ := h.split
  have hfound := hrun.found_eq
  cases hstep with
  | skip sight =>
    rcases sight_eq_nothing sight with hblank | hattr | ⟨hnot, hpass, -⟩
    · exact Or.inl hblank
    · exact Or.inr (Or.inl hattr)
    · refine Or.inr (Or.inr ⟨?_, hpass⟩)
      exact (Bool.or_eq_false_iff.1 (hfound.symm.trans hnot)).2

/-! ## Kept text -/

/-- The kept text of a declaration, with its attributes and with the comment that follows it. -/
theorem Declaration.kept?_eq_some {d : Declaration} {k : Span} (h : d.kept? = some k) :
    d.isStatement = false ∧ k.start = d.footprint ∧
      (d.trailing = .comment ∧ k.stop = d.lineEnd ∨
        d.trailing ≠ .comment ∧ k.stop = d.span.stop) := by
  rw [Declaration.kept?] at h
  split at h
  · rename_i hcomment
    cases h
    refine ⟨?_, rfl, Or.inl ⟨hcomment, rfl⟩⟩
    rw [Declaration.isStatement, hcomment]
    split <;> rfl
  · rename_i hcomment
    split at h
    · cases h
    · rename_i hstatement
      cases h
      exact ⟨Bool.eq_false_iff.2 hstatement, rfl, Or.inr ⟨hcomment, rfl⟩⟩

def Sighting.kept? (s : Sighting) : Option Span := s.item?.bind Item.kept?

/-- The kept text of a sighting ends where the survey goes on at the latest. -/
theorem Step.kept_stop_le {st st' : State} {s : Sighting} (h : Step st [s] st') {k : Span}
    (hk : s.kept? = some k) : k.stop ≤ st'.position := by
  cases h with
  | skip _ => cases hk
  | comment _ =>
    cases hk
    simp only [State.position, Position.le_def, List.length_append, List.length_reverse,
      List.length_cons]
    omega
  | @finish found above before rest first after below more below' stands trailing =>
    have hlen : (Document.rows before first more after).length = more.length + 1 := by
      rw [← fringe_cons, length_fringe, List.length_cons]
    have hline : k.stop.line = (above.length + more.length : Nat) := by
      rcases (Declaration.kept?_eq_some hk).2.2 with ⟨-, h⟩ | ⟨-, h⟩ <;> rw [h] <;> rfl
    simp only [State.position, Position.le_def, List.length_append, List.length_reverse, hlen, hline]
    omega
  | next stands blank opens =>
    rcases (Declaration.kept?_eq_some hk).2.2 with ⟨hcomment, -⟩ | ⟨-, h⟩
    · cases (ofRest_next blank opens).symm.trans hcomment
    · rw [h]
      exact (Step.next stands blank opens).order.2
  | stop stands trailing =>
    rcases (Declaration.kept?_eq_some hk).2.2 with ⟨hcomment, -⟩ | ⟨-, h⟩
    · cases trailing.symm.trans hcomment
    · rw [h]
      exact (Step.stop stands trailing).order.2

/-- Kept text ends before what follows it. -/
theorem Run.kept_stop_le {st st' : State} {ss ss' : List Sighting} {s t : Sighting}
    (h : Run st (ss ++ s :: ss') st') {k : Span} (hk : s.kept? = some k)
    (ht : t ∈ ss') : k.stop ≤ t.start := by
  obtain ⟨st₁, st₂, -, hstep, hrest⟩ := h.split
  exact Position.le_trans (hstep.kept_stop_le hk) (hrest.between ht).1

end TidyUse.Document
