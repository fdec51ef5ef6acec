import TreeParty.Dataset.Training
import TreeParty.Proofs.Loops
/-!
# Nested lists

Nested lists make a grid if on every level all lists have one length. If they do not, they are
refused as a misuse, before the number of dimensions is looked at.
-/

set_option autoImplicit false

namespace TreeParty

/-- Lists nested to a shape. Below an empty list there are no further dimensions. -/
def Nested.HasShape : List Nat → Nested → Prop
  | [], .cell _ => True
  | n :: dims, .items entries =>
    entries.length = n ∧ (n = 0 → dims = []) ∧ ∀ entry ∈ entries, entry.HasShape dims
  | _, _ => False

theorem Nested.inductOn {motive : Nested → Prop} (data : Nested) (cell : ∀ x, motive (.cell x))
    (items : ∀ entries, (∀ entry ∈ entries, motive entry) → motive (.items entries)) :
    motive data :=
  match data with
  | .cell x => cell x
  | .items entries => items entries fun entry _ => entry.inductOn cell items

namespace Grid

variable {data : Nested} {grids : List Grid} {shape dims : List Nat} {g : Grid} {fault : Fault}

/-! ## Stacks -/

theorem ofCells?_eq_error {cells : List Binary64} (h : ofCells? shape cells = .error fault) :
    fault = .misuse .ragged := by
  unfold ofCells? at h
  split at h
  · cases h
  · cases h
    rfl

theorem shape_of_ofCells? {cells : List Binary64} (h : ofCells? shape cells = .ok g) :
    g.shape = shape := by
  unfold ofCells? at h
  split at h
  · cases h
    rfl
  · cases h

theorem stack?_cons (first : Grid) (rest : List Grid) : stack? (first :: rest) =
    if rest.all fun s => s.shape == first.shape then
      ofCells? ((first :: rest).length :: first.shape) ((first :: rest).flatMap (·.cells))
    else .error (.misuse .ragged) := rfl

theorem stack?_eq_error (h : stack? grids = .error fault) : fault = .misuse .ragged := by
  cases grids with
  | nil => cases h
  | cons first rest =>
    rw [stack?_cons] at h
    split at h
    · exact ofCells?_eq_error h
    · cases h
      rfl

/-- A stack has one dimension more than the grids in it, which have one shape. -/
theorem shape_of_stack? (h : stack? grids = .ok g) :
    ∃ dims, g.shape = grids.length :: dims ∧ (grids = [] → dims = []) ∧
      ∀ s ∈ grids, s.shape = dims := by
  cases grids with
  | nil =>
    cases h
    exact ⟨[], rfl, fun _ => rfl, nofun⟩
  | cons first rest =>
    rw [stack?_cons] at h
    split at h
    · next hall =>
      refine ⟨first.shape, shape_of_ofCells? h, nofun, ?_⟩
      intro s hs
      rcases List.mem_cons.mp hs with rfl | hrest
      · rfl
      · exact eq_of_beq (List.all_eq_true.mp hall s hrest)
    · cases h

theorem length_flatMap_cells (h : ∀ s ∈ grids, s.shape = dims) :
    (grids.flatMap (·.cells)).length = cellCount (grids.length :: dims) := by
  have hcells : ∀ s ∈ grids, s.cells.length = cellCount dims := by
    intro s hs
    rw [s.complete, h s hs]
  rw [List.length_flatMap, List.map_congr_left hcells, List.map_const', List.sum_replicate_nat]
  rfl

theorem exists_stack? (hempty : grids = [] → dims = []) (h : ∀ s ∈ grids, s.shape = dims) :
    ∃ g, stack? grids = .ok g ∧ g.shape = grids.length :: dims := by
  cases grids with
  | nil =>
    cases hempty rfl
    exact ⟨_, rfl, rfl⟩
  | cons first rest =>
    have hfirst : first.shape = dims := h first List.mem_cons_self
    have hall : (rest.all fun s => s.shape == first.shape) = true := by
      rw [List.all_eq_true]
      intro s hs
      rw [hfirst, h s (List.mem_cons_of_mem first hs)]
      exact beq_self_eq_true dims
    have hlength := length_flatMap_cells h
    subst hfirst
    refine ⟨⟨_, _, hlength⟩, ?_, rfl⟩
    rw [stack?_cons, if_pos hall, ofCells?, dif_pos hlength]

/-! ## Grids -/

theorem ofEntries_eq_mapM (entries : List Nested) : ofEntries entries = entries.mapM ofNested := by
  induction entries with
  | nil => rfl
  | cons entry rest ih => rw [ofEntries, List.mapM_cons, ih]

theorem ofNested_items (entries : List Nested) :
    ofNested (.items entries) = (entries.mapM ofNested).bind stack? := by
  rw [ofNested, ofEntries_eq_mapM]
  rfl

theorem ofNested_eq_error (h : ofNested data = .error fault) : fault = .misuse .ragged := by
  induction data using Nested.inductOn with
  | cell x => cases h
  | items entries ih =>
    rw [ofNested_items] at h
    cases hentries : entries.mapM ofNested with
    | error first =>
      rw [hentries] at h
      cases h
      obtain ⟨front, entry, rest, heq, -, hentry⟩ := exists_of_mapM_eq_error hentries
      exact ih entry (by simp [heq]) hentry
    | ok grids =>
      rw [hentries] at h
      exact stack?_eq_error h

theorem hasShape_of_ofNested (h : ofNested data = .ok g) : data.HasShape g.shape := by
  induction data using Nested.inductOn generalizing g with
  | cell x =>
    cases h
    trivial
  | items entries ih =>
    rw [ofNested_items] at h
    cases hentries : entries.mapM ofNested with
    | error first =>
      rw [hentries] at h
      cases h
    | ok grids =>
      rw [hentries] at h
      have hlength := length_of_mapM_eq_ok hentries
      obtain ⟨dims, hshape, hempty, hdims⟩ := shape_of_stack? h
      rw [hshape]
      refine ⟨hlength.symm, fun hzero => hempty (List.length_eq_zero_iff.mp hzero), ?_⟩
      intro entry hentry
      obtain ⟨s, hs, hgrid⟩ := (exists_mem_of_mapM hentries).1 entry hentry
      rw [← hdims s hs]
      exact ih entry hentry hgrid

theorem exists_ofNested (h : data.HasShape shape) :
    ∃ g, ofNested data = .ok g ∧ g.shape = shape := by
  induction data using Nested.inductOn generalizing shape with
  | cell x =>
    cases shape with
    | nil => exact ⟨ofCell x, rfl, rfl⟩
    | cons n dims => exact h.elim
  | items entries ih =>
    cases shape with
    | nil => exact h.elim
    | cons n dims =>
      obtain ⟨hlength, hempty, heach⟩ := h
      have hgrid := fun entry hentry => ih entry hentry (heach entry hentry)
      cases hentries : entries.mapM ofNested with
      | error fault =>
        obtain ⟨front, entry, rest, heq, -, herror⟩ := exists_of_mapM_eq_error hentries
        obtain ⟨g, hg, -⟩ := hgrid entry (by simp [heq])
        rw [herror] at hg
        cases hg
      | ok grids =>
        have hcount : grids.length = n := (length_of_mapM_eq_ok hentries).trans hlength
        have hdims : ∀ s ∈ grids, s.shape = dims := by
          intro s hs
          obtain ⟨entry, hentry, hs⟩ := (exists_mem_of_mapM hentries).2 s hs
          obtain ⟨g, hg, hshape⟩ := hgrid entry hentry
          cases hs.symm.trans hg
          exact hshape
        have hnone : grids = [] → dims = [] := by
          rintro rfl
          exact hempty hcount.symm
        obtain ⟨g, hg, hshape⟩ := exists_stack? hnone hdims
        refine ⟨g, ?_, by rw [hshape, hcount]⟩
        rw [ofNested_items, hentries]
        exact hg

/-- Nested lists make a grid of a shape exactly if they are nested to it. -/
theorem ofNested_eq_ok_iff : (∃ g, ofNested data = .ok g ∧ g.shape = shape) ↔
    data.HasShape shape := by
  constructor
  · rintro ⟨g, hg, rfl⟩
    exact hasShape_of_ofNested hg
  · exact exists_ofNested

theorem ofNested_of_noShape (h : ∀ shape, ¬ data.HasShape shape) :
    ofNested data = .error (.misuse .ragged) := by
  cases hdata : ofNested data with
  | error fault => rw [ofNested_eq_error hdata]
  | ok g => exact (h g.shape (hasShape_of_ofNested hdata)).elim

end Grid
end TreeParty
