import TreeParty.Dataset.Training
import TreeParty.Proofs.Binary64.Magnitude
import TreeParty.Proofs.Dataset.Nested
import TreeParty.Proofs.Loops
/-!
# Prepared samples

Preparing a dataset keeps a number of its leading rows that depends only on how many rows there are
and on the share. The holder of the labels gets the same rows as everybody else, cut before the last
column, so that no row is lost or mixed with another; and the rows behind have no influence.

A grid of two dimensions is the grid of one table, so what is said of tables is said of all of them.
-/

set_option autoImplicit false

namespace TreeParty

open Binary64

/-! ## A part of a count -/

namespace Binary64

/-- A count below the largest powers of two becomes a finite double. -/
theorem ofNat_eq_finite {n k : Nat} (hk : k < 1024) (hn : n ≤ Nat.pow 2 k) :
    ∃ h, ofNat n = finite false (roundUnits (n * unitsPerOne) 1) h := by
  have hround := roundUnits_le Nat.one_pos (onGrid_two_pow (k + 1074)) (mul_unitsPerOne_le hn)
  have hlimit : roundUnits (n * unitsPerOne) 1 < unitsLimit :=
    Nat.lt_of_le_of_lt hround (two_pow_lt_unitsLimit (by omega))
  exact ⟨_, round_of_lt hlimit false⟩

theorem ofNat_whole {n : Nat} (hn : n ≤ Nat.pow 2 53) :
    ∃ h, ofNat n = finite false (n * unitsPerOne) h := round_whole hn false

theorem eq_finite_of_between {x : Binary64} (hlow : zero.le x = true)
    (hhigh : x.le (ofNat 1) = true) :
    ∃ s u h, x = finite s u h ∧ u ≤ unitsPerOne ∧ (s = true → u = 0) := by
  obtain ⟨hone, hofNat⟩ := ofNat_whole (Nat.one_le_two_pow : 1 ≤ 2 ^ 53)
  rw [hofNat] at hhigh
  cases x with
  | nan => cases hhigh
  | inf s =>
    cases s with
    | true => cases hlow
    | false => cases hhigh
  | finite s u h =>
    have hle : 0 ≤ (finite s u h).units := (le_finite rfl rfl).mp hlow
    have hge : (finite s u h).units ≤ ((1 * unitsPerOne : Nat) : Int) :=
      (le_finite rfl rfl).mp hhigh
    rw [Nat.one_mul] at hge
    generalize unitsPerOne = one at hge ⊢
    refine ⟨s, u, h, rfl, ?_⟩
    cases s with
    | false =>
      have hsmall : (u : Int) ≤ one := hge
      exact ⟨by omega, nofun⟩
    | true =>
      have hsmall : 0 ≤ -(u : Int) := hle
      have hzero : u = 0 := by omega
      exact ⟨by omega, fun _ => hzero⟩

theorem eq_finite_of_equalsInt_one {x : Binary64} (h : x.equalsInt 1 = true) :
    ∃ u hu, x = finite false u hu ∧ u = unitsPerOne := by
  obtain ⟨hfinite, hunits⟩ := Bool.and_eq_true_iff.mp h
  rw [beq_iff_eq, Int.one_mul] at hunits
  cases x with
  | finite s u hu =>
    have hpositive := unitsPerOne_pos
    generalize unitsPerOne = one at hunits hpositive ⊢
    cases s with
    | false => exact ⟨u, hu, rfl, Int.ofNat_inj.mp hunits⟩
    | true =>
      have hminus : -(u : Int) = (one : Nat) := hunits
      omega
  | _ => cases hfinite

/-- A count times a part of one, cut to a whole number. -/
theorem trunc_mul {s : Bool} {u v : Nat} (hu : Representable u) (hv : Representable v)
    (hle : v ≤ unitsPerOne) (hsign : s = true → v = 0) :
    ((finite false u hu).mul (finite s v hv)).trunc =
      .ok ((roundUnits (u * v) unitsPerOne / unitsPerOne : Nat) : Int) := by
  have hround : roundUnits (u * v) unitsPerOne ≤ u :=
    roundUnits_le unitsPerOne_pos hu.onGrid (Nat.mul_le_mul_left u hle)
  rw [mul_finite, round_of_lt (Nat.lt_of_le_of_lt hround hu.1)]
  cases s with
  | false => rfl
  | true =>
    have hzero : roundUnits (u * v) unitsPerOne = 0 := by
      rw [hsign rfl, Nat.mul_zero]
      exact Nat.le_zero.mp (roundUnits_le unitsPerOne_pos representable_zero.onGrid (Nat.zero_le _))
    simp [trunc, hzero]

end Binary64

namespace TrainingData

def IsFraction : Value → Prop
  | .bool _ => True
  | .int q => 0 ≤ q ∧ q ≤ 1
  | .float q => zero.le q = true ∧ q.le (ofNat 1) = true
  | _ => False

variable {share : Value} {n : Nat}

theorem partOf_float {q : Binary64} {part : Int} (hshare : share = .float q)
    (h : ((ofNat n).mul q).trunc = .ok part) : partOf n share = .ok part := by
  unfold partOf
  -- With the conversion in its place the checker would compute the double.
  obtain ⟨double, hdouble⟩ : ∃ double, ofNat = double := ⟨_, rfl⟩
  rw [hdouble] at h ⊢
  rw [hshare]
  dsimp only
  rw [h]

theorem partOf_of_isFraction (hshare : IsFraction share) (hn : n < Nat.pow 2 63) :
    ∃ part : Nat, partOf n share = .ok (part : Int) := by
  cases share with
  | bool b =>
    cases b with
    | false => exact ⟨0, rfl⟩
    | true => exact ⟨n, congrArg Except.ok (Int.mul_one n)⟩
  | int q =>
    obtain ⟨hlow, hhigh⟩ := hshare
    refine ⟨n * q.toNat, congrArg Except.ok ?_⟩
    rw [Int.natCast_mul, Int.toNat_of_nonneg hlow]
  | float q =>
    obtain ⟨s, v, hv, rfl, hle, hsign⟩ := eq_finite_of_between hshare.1 hshare.2
    obtain ⟨hu, hcount⟩ := ofNat_eq_finite (by decide : 63 < 1024) (Nat.le_of_lt hn)
    have htrunc := trunc_mul hu hv hle hsign
    rw [← hcount] at htrunc
    exact ⟨_, partOf_float rfl htrunc⟩
  | _ => exact hshare.elim

/-- A double equal to one times a count is the double nearest to the count. -/
theorem partOf_one_float {one : Binary64} (hone : one.equalsInt 1 = true) (hn : n < Nat.pow 2 63) :
    ∃ nearest : Nat, (ofNat n).trunc = .ok (nearest : Int) ∧
      partOf n (.float one) = .ok (nearest : Int) := by
  obtain ⟨u, hu, rfl, hunits⟩ := eq_finite_of_equalsInt_one hone
  obtain ⟨hcount, hofNat⟩ := ofNat_eq_finite (by decide : 63 < 1024) (Nat.le_of_lt hn)
  have hplus : false = true → u = 0 := nofun
  have htrunc := trunc_mul hcount hu (Nat.le_of_eq hunits) hplus
  have hexact : roundUnits (roundUnits (n * unitsPerOne) 1 * u) unitsPerOne =
      roundUnits (n * unitsPerOne) 1 := by
    rw [hunits, roundUnits_mul unitsPerOne_pos hcount.onGrid]
  rw [hexact, ← hofNat] at htrunc
  refine ⟨_, ?_, partOf_float rfl htrunc⟩
  rw [hofNat]
  rfl

/-- Up to the count from which doubles leave out whole numbers, the nearest double is the count. -/
theorem trunc_ofNat (hn : n ≤ Nat.pow 2 53) : (ofNat n).trunc = .ok (n : Int) := by
  obtain ⟨h, hofNat⟩ := ofNat_whole hn
  have htrunc : (finite false (n * unitsPerOne) h).trunc =
    .ok ((n * unitsPerOne / unitsPerOne : Nat) : Int) := rfl
  rw [hofNat, htrunc, Nat.mul_div_cancel n unitsPerOne_pos]

theorem partOf_one_whole (hone : share.same (.int 1) = true) (hwhole : ∀ x, share ≠ .float x) :
    partOf n share = .ok (n : Int) := by
  cases share with
  | bool b =>
    cases b with
    | false => cases hone
    | true => exact congrArg Except.ok (Int.mul_one n)
  | int q =>
    have hq : q = 1 := beq_iff_eq.mp hone
    rw [hq]
    exact congrArg Except.ok (Int.mul_one n)
  | float x => exact (hwhole x rfl).elim
  | _ => cases hone

def keptCount (n : Nat) (share : Value) : Nat :=
  match partOf n share with
  | .ok bound => Position.cut n bound
  | .error _ => 0

theorem keptCount_le (n : Nat) (share : Value) : keptCount n share ≤ n := by
  unfold keptCount
  split
  · apply Position.cut_le
  · apply Nat.zero_le

theorem keptCount_of_partOf {bound : Int} (h : partOf n share = .ok bound) :
    keptCount n share = Position.cut n bound := by
  unfold keptCount
  rw [h]

/-- What a share of one keeps: everything, but a double keeps only as many rows as the double
nearest to their number says. -/
structure KeepsAll (share : Value) : Prop where
  whole : (∀ x, share ≠ .float x) → ∀ n, keptCount n share = n
  double : ∀ x, share = .float x → ∀ n < Nat.pow 2 63, ∃ nearest : Nat,
    (ofNat n).trunc = .ok (nearest : Int) ∧ keptCount n share = min nearest n
  exact : ∀ n ≤ Nat.pow 2 53, keptCount n share = n

theorem keptCount_one_float {one : Binary64} (hone : one.equalsInt 1 = true)
    (hn : n < Nat.pow 2 63) : ∃ nearest : Nat, (ofNat n).trunc = .ok (nearest : Int) ∧
      keptCount n (.float one) = min nearest n := by
  obtain ⟨nearest, htrunc, hpart⟩ := partOf_one_float hone hn
  exact ⟨nearest, htrunc, by rw [keptCount_of_partOf hpart, Position.cut_natCast]⟩

theorem keepsAll (hone : share.same (.int 1) = true) : KeepsAll share where
  whole := by
    intro hwhole n
    rw [keptCount_of_partOf (partOf_one_whole hone hwhole), Position.cut_natCast, Nat.min_self]
  double := by
    rintro x rfl n hn
    exact keptCount_one_float hone hn
  exact := by
    intro n hn
    by_cases hwhole : ∀ x, share ≠ .float x
    · rw [keptCount_of_partOf (partOf_one_whole hone hwhole), Position.cut_natCast, Nat.min_self]
    · obtain ⟨x, rfl⟩ : ∃ x, share = .float x := by simpa using hwhole
      have hsmall : n < Nat.pow 2 63 := Nat.lt_of_le_of_lt hn (by decide)
      obtain ⟨nearest, htrunc, hkept⟩ := keptCount_one_float hone hsmall
      rw [trunc_ofNat hn] at htrunc
      have hnearest : n = nearest := Int.ofNat_inj.mp (Except.ok.inj htrunc)
      rw [hkept, ← hnearest, Nat.min_self]

end TrainingData

/-! ## Tables -/

namespace Grid

variable {width : Nat}

theorem length_cutRows (width count : Nat) (cells : List Binary64) :
    (cutRows width count cells).length = count := by
  induction count generalizing cells with
  | zero => rfl
  | succ count ih => simp [cutRows, ih]

theorem cutRows_flatten {rows : List (List Binary64)} (hrows : ∀ row ∈ rows, row.length = width) :
    cutRows width rows.length rows.flatten = rows := by
  induction rows with
  | nil => rfl
  | cons row rows ih =>
    have hrow : row.length = width := hrows row List.mem_cons_self
    have hrest := ih fun r hr => hrows r (List.mem_cons_of_mem row hr)
    rw [List.flatten_cons, List.length_cons, cutRows, List.take_left' hrow, List.drop_left' hrow,
      hrest]

theorem flatten_cutRows {count : Nat} {cells : List Binary64}
    (hcells : cells.length = count * width) : (cutRows width count cells).flatten = cells := by
  induction count generalizing cells with
  | zero =>
    rw [Nat.zero_mul] at hcells
    exact (List.eq_nil_of_length_eq_zero hcells).symm
  | succ count ih =>
    rw [cutRows, List.flatten_cons, ih, List.take_append_drop]
    rw [List.length_drop, hcells, Nat.succ_mul, Nat.add_sub_cancel]

theorem exists_toGrid {g : Grid} {n : Nat} (hshape : g.shape = [n, width]) :
    ∃ t : Table, t.toGrid = g ∧ t.rows.length = n ∧ t.width = width := by
  obtain ⟨shape, cells, hcomplete⟩ := g
  subst hshape
  have hcells : cells.length = n * width := by simpa [cellCount] using hcomplete
  have hrows := length_cutRows width n cells
  refine ⟨⟨width, cutRows width n cells, length_of_mem_cutRows hcells⟩, ?_, hrows, rfl⟩
  unfold Table.toGrid
  simp only [hrows, flatten_cutRows hcells]

theorem table?_toGrid (t : Table) : t.toGrid.table? = .ok t := by
  obtain ⟨width, rows, hrows⟩ := t
  unfold table? Table.toGrid
  simp only [cutRows_flatten hrows]

theorem toGrid_injective {s t : Table} (h : s.toGrid = t.toGrid) : s = t := by
  have htable : s.toGrid.table? = .ok t := by rw [h, table?_toGrid]
  exact Except.ok.inj ((table?_toGrid s).symm.trans htable)

theorem table?_of_shape {g : Grid} (hshape : ∀ n width, g.shape ≠ [n, width]) :
    g.table? = .error (.configuration (.notTable g.shape)) := by
  unfold table?
  split
  · next n width h => exact (hshape n width h).elim
  · rfl

end Grid

namespace Table

def take (count : Nat) (t : Table) : Table :=
  ⟨t.width, t.rows.take count, fun row hrow => t.regular row (List.mem_of_mem_take hrow)⟩

theorem length_take {count : Nat} {t : Table} (h : count ≤ t.rows.length) :
    (t.take count).rows.length = count := List.length_take_of_le h

end Table

namespace TrainingData

variable {share holder : Value} {clientId : Int}

theorem leading_eq_take (bound : Int) (t : Table) :
    leading bound t = t.take (Position.cut t.rows.length bound) := by
  unfold leading Table.take
  simp only [Position.slice_zero]

/-! ## Rows and labels -/

theorem zipWith_dropLast {rows : List (List Binary64)} (hrows : ∀ row ∈ rows, row ≠ []) :
    List.zipWith (fun row label => row ++ [label]) (rows.map List.dropLast)
      (rows.filterMap List.getLast?) = rows := by
  induction rows with
  | nil => rfl
  | cons row rows ih =>
    have hrow := hrows row List.mem_cons_self
    have hrest := ih fun r hr => hrows r (List.mem_cons_of_mem row hr)
    rw [List.map_cons, List.filterMap_cons_some (List.getLast?_eq_some_getLast hrow),
      List.zipWith_cons_cons, List.dropLast_append_getLast hrow, hrest]

theorem length_lastColumn {t : Table} (hwidth : 0 < t.width) :
    (lastColumn t).length = t.rows.length := by
  unfold lastColumn
  rw [List.length_filterMap_eq_countP, List.countP_eq_length]
  intro row hrow
  have hlength := t.regular row hrow
  have hrow : row ≠ [] := List.ne_nil_of_length_pos (by omega)
  rw [List.getLast?_eq_some_getLast hrow, Option.isSome_some]

/-- What a client gets of the rows that are kept: all of them without labels, or for the holder of
the labels rows and labels that side by side are the same rows. Without columns there are no labels,
and a notice says so. -/
structure HandsOut (isHolder : Bool) (kept : Table) (report : Report TrainingData) : Prop where
  others : isHolder = false → report = ⟨[], .ok ⟨kept, none⟩⟩
  labelled : isHolder = true → 0 < kept.width → ∃ samples labels,
    report = ⟨[], .ok ⟨samples, some labels⟩⟩ ∧ samples.width + 1 = kept.width ∧
    samples.rows.length = kept.rows.length ∧ labels.length = kept.rows.length ∧
    List.zipWith (fun row label => row ++ [label]) samples.rows labels = kept.rows
  noColumns : isHolder = true → kept.width = 0 → report = ⟨[.noColumns], .ok ⟨kept, some []⟩⟩

theorem handsOut_splitLabels (t : Table) : HandsOut true t (splitLabels t) where
  others := nofun
  labelled := by
    intro _ hwidth
    have hrows : ∀ row ∈ t.rows, row ≠ [] := by
      intro row hrow
      have hlength := t.regular row hrow
      exact List.ne_nil_of_length_pos (by omega)
    refine ⟨withoutLast t, lastColumn t, ?_, Nat.sub_add_cancel hwidth, List.length_map _,
      length_lastColumn hwidth, zipWith_dropLast hrows⟩
    unfold splitLabels
    rw [if_neg (by omega)]
    rfl
  noColumns := by
    intro _ hwidth
    unfold splitLabels
    rw [if_pos hwidth]
    rfl

/-! ## Preparation -/

/-- What preparing a table comes to, once it is known how many rows are kept. -/
def handOut (isHolder : Bool) (kept : Table) : Report TrainingData :=
  if isHolder then splitLabels kept else return ⟨kept, none⟩

theorem handsOut (isHolder : Bool) (kept : Table) :
    HandsOut isHolder kept (handOut isHolder kept) := by
  cases isHolder with
  | true => exact handsOut_splitLabels kept
  | false => exact ⟨fun _ => rfl, nofun, nofun⟩

theorem prepare_toGrid {t : Table} {bound : Int}
    (hbound : partOf t.rows.length share = .ok bound) :
    prepare t.toGrid clientId share holder =
      handOut ((Value.int clientId).same holder) (t.take (keptCount t.rows.length share)) := by
  have hkept : leading bound t = t.take (keptCount t.rows.length share) := by
    rw [leading_eq_take, keptCount_of_partOf hbound]
  unfold prepare handOut
  rw [Grid.table?_toGrid, Report.liftM_ok, pure_bind, hbound, Report.liftM_ok, pure_bind, ← hkept]

theorem prepare_of_shape {samples : Grid} (hshape : ∀ n width, samples.shape ≠ [n, width]) :
    prepare samples clientId share holder =
      Report.fail (.configuration (.notTable samples.shape)) := by
  unfold prepare
  rw [Grid.table?_of_shape hshape]
  rfl

theorem prepareNested_of_noShape {data : Nested} (h : ∀ shape, ¬ data.HasShape shape) :
    prepareNested data clientId share holder = ⟨[], .error (.misuse .ragged)⟩ := by
  unfold prepareNested
  rw [Grid.ofNested_of_noShape h]
  rfl

/-- **Preparation keeps leading rows.** With a share from zero to one a number of leading rows is
kept that depends on the number of rows and on the share only, and with a share of one all of them,
as far as doubles count the rows. Every client gets exactly these rows, and what it gets stays the
same when the rows behind change. A grid that does not have two dimensions is refused, and nested
lists that are no grid are a misuse. -/
theorem prepare_keepsLeadingRows (hshare : IsFraction share) :
    (∀ n, keptCount n share ≤ n) ∧
    (share.same (.int 1) = true → KeepsAll share) ∧
    ∀ (samples : Grid) (clientId : Int) (holder : Value),
      (∀ n width, samples.shape = [n, width] → n < Nat.pow 2 63 →
        ∃ t : Table, t.toGrid = samples ∧ t.rows.length = n ∧ t.width = width ∧
          (t.take (keptCount n share)).rows.length = keptCount n share ∧
          HandsOut ((Value.int clientId).same holder) (t.take (keptCount n share))
            (prepare samples clientId share holder) ∧
          ∀ other : Table, other.rows.length = n →
            other.take (keptCount n share) = t.take (keptCount n share) →
            prepare other.toGrid clientId share holder =
              prepare samples clientId share holder) ∧
      ((∀ n width, samples.shape ≠ [n, width]) →
        prepare samples clientId share holder =
          ⟨[], .error (.configuration (.notTable samples.shape))⟩) ∧
      ∀ data : Nested, (∀ shape, ¬ data.HasShape shape) →
        prepareNested data clientId share holder = ⟨[], .error (.misuse .ragged)⟩ := by
  refine ⟨fun n => keptCount_le n share, keepsAll, ?_⟩
  intro samples clientId holder
  refine ⟨?_, prepare_of_shape, fun _ => prepareNested_of_noShape⟩
  · intro n width hshape hn
    obtain ⟨t, rfl, hlength, hwidth⟩ := Grid.exists_toGrid hshape
    obtain ⟨part, hpart⟩ := partOf_of_isFraction hshare hn
    have hle : keptCount n share ≤ t.rows.length := by
      rw [hlength]
      exact keptCount_le n share
    have hprepare : ∀ s : Table, s.rows.length = n → prepare s.toGrid clientId share holder =
        handOut ((Value.int clientId).same holder) (s.take (keptCount n share)) := by
      intro s hs
      subst hs
      exact prepare_toGrid hpart
    refine ⟨t, rfl, hlength, hwidth, Table.length_take hle, ?_, ?_⟩
    · rw [hprepare t hlength]
      apply handsOut
    · intro other hother hsame
      rw [hprepare other hother, hprepare t hlength, hsame]

def unequalRows : Nested := .items [.items [.cell zero, .cell zero], .items [.cell zero]]

theorem not_hasShape_unequalRows : ∀ shape, ¬ unequalRows.HasShape shape
  | [], h => h
  | [_], h => h.2.2 _ List.mem_cons_self
  | _ :: _ :: _, h => by
    have hfirst := (h.2.2 (.items [.cell zero, .cell zero]) (by simp)).1
    have hsecond := (h.2.2 (.items [.cell zero]) (by simp)).1
    rw [← hsecond] at hfirst
    cases hfirst

/-- Of three rows the holder of the labels gets one, cut before its last cell; a share of one keeps
all three. Rows of different lengths are a misuse. -/
theorem prepare_keepsLeadingRows_oneHalf :
    let t : Table := ⟨2, [[zero, oneHalf], [zero, zero], [oneHalf, zero]], by simp⟩
    IsFraction (.float oneHalf) ∧ keptCount 3 (.float oneHalf) = 1 ∧
      (∃ samples labels, prepare t.toGrid 0 (.float oneHalf) (.int 0) =
        ⟨[], .ok ⟨samples, some labels⟩⟩ ∧
        List.zipWith (fun row label => row ++ [label]) samples.rows labels =
          [[zero, oneHalf]]) ∧
      IsFraction (.int 1) ∧ (Value.int 1).same (.int 1) = true ∧ keptCount 3 (.int 1) = 3 ∧
      prepareNested unequalRows 0 (.int 1) (.int 0) = ⟨[], .error (.misuse .ragged)⟩ := by
  intro t
  have hfraction : IsFraction (.float oneHalf) := ⟨by decide +kernel, by decide +kernel⟩
  have hcount : keptCount 3 (.float oneHalf) = 1 := by decide +kernel
  obtain ⟨-, -, hall⟩ := prepare_keepsLeadingRows hfraction
  obtain ⟨s, hgrid, -, -, -, hands, -⟩ := (hall t.toGrid 0 (.int 0)).1 3 2 rfl (by decide)
  cases Grid.toGrid_injective hgrid
  rw [hcount] at hands
  obtain ⟨samples, labels, hreport, -, -, -, hrows⟩ := hands.labelled rfl Nat.zero_lt_two
  have hone : IsFraction (.int 1) := ⟨by decide, by decide⟩
  obtain ⟨-, hkeeps, hrefused⟩ := prepare_keepsLeadingRows hone
  exact ⟨hfraction, hcount, ⟨samples, labels, hreport, hrows⟩, hone, rfl,
    (hkeeps rfl).exact 3 (by decide),
    (hrefused t.toGrid 0 (.int 0)).2.2 _ not_hasShape_unequalRows⟩

def zeros (count : Nat) : Table :=
  ⟨1, List.replicate count [zero], fun row hrow => by rw [List.eq_of_mem_replicate hrow]; rfl⟩

/-- Of 2 ^ 53 + 1 rows the double one keeps 2 ^ 53. And rows of different lengths, which do not have
two dimensions, are a misuse and no wrong configuration. -/
theorem prepare_losesRow :
    let t := zeros 9007199254740993
    let share : Value := .float (ofNat 1)
    IsFraction share ∧ share.same (.int 1) = true ∧ t.rows.length = 9007199254740993 ∧
      keptCount 9007199254740993 share = 9007199254740992 ∧
      (∃ kept : Table, prepare t.toGrid 1 share (.int 0) = ⟨[], .ok ⟨kept, none⟩⟩ ∧
        kept.rows.length = 9007199254740992) ∧
      (∀ shape, ¬ unequalRows.HasShape shape) ∧
      ∀ fault, prepareNested unequalRows 1 share (.int 0) ≠ Report.fail (.configuration fault) := by
  intro t share
  have hsmall : 9007199254740993 < Nat.pow 2 63 := by decide
  have hone : (ofNat 1).equalsInt 1 = true := by decide +kernel
  have hrounds : (ofNat 9007199254740993).trunc = .ok (9007199254740992 : Nat) := by decide +kernel
  have hlength : t.rows.length = 9007199254740993 := List.length_replicate
  obtain ⟨nearest, htrunc, hpart⟩ := partOf_one_float hone hsmall
  have hnearest : nearest = 9007199254740992 :=
    Int.ofNat_inj.mp (Except.ok.inj (htrunc.symm.trans hrounds))
  have hkept : keptCount 9007199254740993 share = 9007199254740992 := by
    rw [keptCount_of_partOf hpart, Position.cut_natCast, hnearest]
    rfl
  have hprepare := @prepare_toGrid share (.int 0) 1 t _ (by rw [hlength]; exact hpart)
  rw [hlength, hkept] at hprepare
  refine ⟨⟨by decide +kernel, by decide +kernel⟩, hone, hlength, hkept, ⟨_, hprepare,
    Table.length_take (by rw [hlength]; decide)⟩, not_hasShape_unequalRows, ?_⟩
  intro fault h
  rw [prepareNested_of_noShape not_hasShape_unequalRows] at h
  cases h

end TrainingData
end TreeParty
