import TreeParty.Dataset.Training
import TreeParty.Proofs.Field.Signed
import TreeParty.Proofs.FixedPoint
/-!
# The peak stands for all values

`checkFits` looks at the largest magnitude only. That is enough, because the size of an encoding
grows with the magnitude and the bounds of a field are the same on both sides of zero: the peak is
accepted exactly if every value is. A NaN or an infinity becomes the peak and is refused there.
-/

set_option autoImplicit false

namespace TreeParty

open Binary64

/-! ## The largest magnitude -/

namespace Binary64

theorem precedes_refl (x : Binary64) : Column.precedes x x = true := by
  rw [Column.precedes_iff]
  omega

theorem precedes_max_left (x y : Binary64) : Column.precedes x (x.max y) = true := by
  unfold max
  split_ifs with hx hy hle
  · exact precedes_refl x
  · unfold Column.precedes
    rw [hy, Bool.true_or]
  · unfold Column.precedes
    rw [hle, Bool.or_true]
  · exact precedes_refl x

theorem precedes_max_right (x y : Binary64) : Column.precedes y (x.max y) = true := by
  unfold max
  split_ifs with hx hy hle
  · unfold Column.precedes
    rw [hx, Bool.true_or]
  · exact precedes_refl y
  · exact precedes_refl y
  · rcases Column.precedes_total x y with hxy | hyx
    · unfold Column.precedes at hxy
      simp [hy, hle] at hxy
    · exact hyx

theorem isNegative_abs (x : Binary64) : x.abs.isNegative = false := by
  cases x <;> rfl

/-- What comes after a magnitude and is finite is at least as large. -/
theorem isFinite_of_precedes_abs {x largest : Binary64}
    (h : Column.precedes x.abs largest = true) (hlargest : largest.isFinite = true) :
    x.isFinite = true ∧ x.units.natAbs ≤ largest.units.natAbs := by
  rw [Column.precedes_iff, tier_eq_one hlargest] at h
  cases x with
  | nan => simp [abs, tier] at h
  | inf s => simp [abs, tier] at h
  | finite s u hu =>
    have hunits : (finite s u hu).abs.units = u := rfl
    rw [natAbs_units_finite]
    rw [hunits] at h
    simp only [abs, tier] at h
    exact ⟨rfl, by omega⟩

theorem natAbs_units_abs (x : Binary64) : x.abs.units.natAbs = x.units.natAbs := by
  cases x with
  | nan => rfl
  | inf s => rfl
  | finite s u hu =>
    rw [natAbs_units_finite]
    exact natAbs_units_finite false u hu

theorem isFinite_abs (x : Binary64) : x.abs.isFinite = x.isFinite := by
  cases x <;> rfl

theorem units_abs {x : Binary64} (hx : x.isFinite = true) : x.abs.units = x.units.natAbs := by
  cases x with
  | nan => cases hx
  | inf s => cases hx
  | finite s u hu =>
    rw [natAbs_units_finite]
    rfl

theorem abs_le_abs_iff {x y : Binary64} (hx : x.isFinite = true) (hy : y.isFinite = true) :
    x.abs.le y.abs = true ↔ x.units.natAbs ≤ y.units.natAbs := by
  rw [le_finite ((isFinite_abs x).trans hx) ((isFinite_abs y).trans hy), units_abs hx,
    units_abs hy]
  exact Int.ofNat_le

end Binary64

namespace TrainingData

theorem precedes_foldl_max (cells : List Binary64) (start : Binary64) :
    let largest := cells.foldl (fun largest x => largest.max x.abs) start
    Column.precedes start largest = true ∧ ∀ x ∈ cells, Column.precedes x.abs largest = true := by
  induction cells generalizing start with
  | nil =>
    refine ⟨?_, fun x hx => absurd hx List.not_mem_nil⟩
    rw [List.foldl_nil, Column.precedes_iff]
    omega
  | cons cell rest ih =>
    obtain ⟨hstart, hrest⟩ := ih (start.max cell.abs)
    dsimp only at hstart hrest ⊢
    rw [List.foldl_cons]
    refine ⟨Column.precedes_trans (precedes_max_left start cell.abs) hstart, fun x hx => ?_⟩
    rcases List.mem_cons.mp hx with rfl | hmem
    · exact Column.precedes_trans (precedes_max_right start x.abs) hstart
    · exact hrest x hmem

theorem foldl_max_mem (cells : List Binary64) (start : Binary64) :
    cells.foldl (fun largest x => largest.max x.abs) start = start ∨
      ∃ x ∈ cells, cells.foldl (fun largest x => largest.max x.abs) start = x.abs := by
  induction cells generalizing start with
  | nil => exact .inl rfl
  | cons cell rest ih =>
    rw [List.foldl_cons]
    rcases ih (start.max cell.abs) with hstart | ⟨x, hx, hmax⟩
    · rw [hstart]
      unfold Binary64.max
      split_ifs
      · exact .inl rfl
      · exact .inr ⟨cell, List.mem_cons_self, rfl⟩
      · exact .inr ⟨cell, List.mem_cons_self, rfl⟩
      · exact .inl rfl
    · exact .inr ⟨x, List.mem_cons_of_mem cell hx, hmax⟩

theorem isNegative_peak (cells : List Binary64) : (peak cells).isNegative = false := by
  unfold peak
  rcases foldl_max_mem cells zero with hstart | ⟨x, -, hmax⟩
  · rw [hstart]
    rfl
  · rw [hmax]
    exact isNegative_abs x

end TrainingData

/-! ## Accepted values -/

namespace TrainingData

open FixedPoint

def Accepts (F : FieldParams) (precision : Precision) (x : Binary64) : Prop :=
  ∃ n r, encode precision x = .ok n ∧ Residue.ofSigned F n = .ok r

variable {F : FieldParams} {p : Int} {cells : List Binary64}

theorem Accepts.isFinite {precision : Precision} {x : Binary64} (h : Accepts F precision x) :
    x.isFinite = true := by
  obtain ⟨n, -, hn, -⟩ := h
  cases x with
  | nan => cases hn
  | inf s => cases hn
  | finite s u hu => rfl

theorem accepts_iff {precision : Precision} {x : Binary64} :
    Accepts F precision x ↔ ∃ n, encode precision x = .ok n ∧ n.natAbs ≤ F.prime / 2 := by
  constructor
  · rintro ⟨n, r, hn, hr⟩
    exact ⟨n, hn, Residue.exists_ofSigned_iff.mp ⟨r, hr⟩⟩
  · rintro ⟨n, hn, hle⟩
    obtain ⟨r, hr⟩ := Residue.exists_ofSigned_iff.mpr hle
    exact ⟨n, r, hn, hr⟩

theorem Accepts.of_le {x y : Binary64} (hy : Accepts F (.places p) y) (hx : x.isFinite = true)
    (hle : x.units.natAbs ≤ y.units.natAbs) : Accepts F (.places p) x := by
  rw [accepts_iff] at hy ⊢
  obtain ⟨n, hn, hbound⟩ := hy
  obtain ⟨u, hu, hscale⟩ := exists_factor_of_encode hn
  obtain ⟨m, hm, hmn⟩ := encode_of_smaller hscale hn hx hle
  exact ⟨m, hm, hmn.trans hbound⟩

/-- The peak of finite values is no larger than one of them. -/
theorem exists_peak_le (hcells : cells ≠ []) (hfinite : ∀ x ∈ cells, x.isFinite = true) :
    (peak cells).isFinite = true ∧
      ∃ x ∈ cells, (peak cells).units.natAbs ≤ x.units.natAbs := by
  rcases foldl_max_mem cells zero with hzero | ⟨x, hx, hmax⟩
  · obtain ⟨x, hx⟩ := List.exists_mem_of_ne_nil cells hcells
    have hpeak : peak cells = zero := hzero
    rw [hpeak]
    exact ⟨rfl, x, hx, Nat.zero_le _⟩
  · have hpeak : peak cells = x.abs := hmax
    rw [hpeak, isFinite_abs]
    exact ⟨hfinite x hx, x, hx, (natAbs_units_abs x).le⟩

theorem checkFits_of_ne_nil (hcells : cells ≠ []) :
    checkFits F (.places p) cells = match encode (.places p) (peak cells) with
      | .ok largest =>
        if (F.prime / 2 : Nat) < largest then
          .error (.configuration (.outsideField (bitLength F.prime)))
        else .ok ()
      | .error _ => .error (.configuration .unencodable) := by
  have hnot := encode_ne_settingKind p (peak cells)
  unfold checkFits
  rw [if_neg (by simpa using hcells)]
  split
  · next hencode => rw [hencode]
  · next hencode => exact absurd hencode hnot
  · next hencode => rw [hencode]

theorem accepts_peak_iff (hcells : cells ≠ []) :
    Accepts F (.places p) (peak cells) ↔ ∀ x ∈ cells, Accepts F (.places p) x := by
  constructor
  · intro hpeak x hx
    obtain ⟨-, hall⟩ := precedes_foldl_max cells zero
    obtain ⟨hfinite, hle⟩ := isFinite_of_precedes_abs (hall x hx) hpeak.isFinite
    exact hpeak.of_le hfinite hle
  · intro hall
    obtain ⟨hfinite, x, hx, hle⟩ := exists_peak_le hcells fun x hx => (hall x hx).isFinite
    exact (hall x hx).of_le hfinite hle

theorem checkFits_eq_ok_iff :
    checkFits F (.places p) cells = .ok () ↔ ∀ x ∈ cells, Accepts F (.places p) x := by
  by_cases hcells : cells = []
  · rw [hcells]
    exact ⟨fun _ x hx => absurd hx List.not_mem_nil, fun _ => rfl⟩
  · rw [← accepts_peak_iff hcells, checkFits_of_ne_nil hcells, accepts_iff]
    cases hencode : encode (.places p) (peak cells) with
    | error fault => simp
    | ok largest =>
      obtain ⟨u, hu, hscale⟩ := exists_factor_of_encode hencode
      have hnonneg := (size_of_encode hscale hencode).2 (isNegative_peak cells)
      constructor
      · intro hok
        dsimp only at hok
        refine ⟨largest, rfl, ?_⟩
        have hbound : ¬ ((F.prime / 2 : Nat) : Int) < largest := fun hlarge => by
          rw [if_pos hlarge] at hok
          cases hok
        omega
      · rintro ⟨n, hn, hbound⟩
        cases hn
        exact if_neg (by omega)

/-- An array passes the check exactly if each of its values is encoded and has a place in the field,
whatever the values and the number of places. Otherwise there is a configuration fault. -/
theorem checkFits_isExact (F : FieldParams) (p : Int) (array : Grid) :
    (checkFits F (.places p) array.cells = .ok () ↔ ∀ x ∈ array.cells, ∃ n r,
      encode (.places p) x = .ok n ∧ Residue.ofSigned F n = .ok r) ∧
    (checkFits F (.places p) array.cells = .ok () ∨
      ∃ fault, checkFits F (.places p) array.cells = .error (.configuration fault)) := by
  refine ⟨checkFits_eq_ok_iff, ?_⟩
  by_cases hcells : array.cells = []
  · left
    rw [hcells]
    rfl
  · rw [checkFits_of_ne_nil hcells]
    split
    · split
      · exact .inr ⟨_, rfl⟩
      · exact .inl rfl
    · exact .inr ⟨_, rfl⟩

end TrainingData
end TreeParty
