import Mathlib.Data.List.DropRight
import TreeParty.Proofs.Settings.Dictionary
import TreeParty.Settings.Table
/-!
# Updates of the settings

An update applies its pairs one by one and stops at the first item that is none. So after any
updates each key of the table has the value of the last pair that was applied to it, whether the
update went through or not. The copies are behind the table: they are the entries as of the last
update that went through, and a later one that stopped halfway may have changed the table since.
-/

set_option autoImplicit false

namespace TreeParty
namespace Settings

open Dict

/-! ## One update -/

def isPair (item : Value) : Bool := (pair? item).isOk

def leadingPairs (items : List Value) : List (Value × Value) :=
  (items.takeWhile isPair).filterMap fun item => (pair? item).toOption

def appliedPairs (change : Value) : List (Value × Value) :=
  match change with
  | .dict entries => entries
  | v => leadingPairs ((items? v).getD [])

/-- Whether an update goes through: it can be gone through, and every item is a pair. -/
def goesThrough (change : Value) : Bool :=
  match change with
  | .dict _ => true
  | v => (items? v).any fun items => items.all isPair

variable {item : Value} {rest : List Value} {change : Value} {s : Settings}

theorem leadingPairs_of_ok {pair : Value × Value} (h : pair? item = .ok pair) :
    leadingPairs (item :: rest) = pair :: leadingPairs rest := by
  have hitem : isPair item = true := by rw [isPair, h]; rfl
  rw [leadingPairs, List.takeWhile_cons_of_pos hitem, List.filterMap_cons, h]
  rfl

theorem leadingPairs_of_error {fault : Fault} (h : pair? item = .error fault) :
    leadingPairs (item :: rest) = [] := by
  have hitem : ¬ isPair item = true := by rw [isPair, h]; nofun
  rw [leadingPairs, List.takeWhile_cons_of_neg hitem, List.filterMap_nil]

theorem applyPairs_table (items : List Value) (table : Dict) :
    (applyPairs items table).2 = table.putAll (leadingPairs items) := by
  induction items generalizing table with
  | nil => rfl
  | cons item rest ih =>
    unfold applyPairs
    cases h : pair? item with
    | ok pair =>
      rw [leadingPairs_of_ok h]
      exact ih (table.put pair.1 pair.2)
    | error fault =>
      rw [leadingPairs_of_error h]
      rfl

theorem applyPairs_eq_ok_iff (items : List Value) (table : Dict) :
    (applyPairs items table).1 = .ok () ↔ items.all isPair = true := by
  induction items generalizing table with
  | nil => simp [applyPairs]
  | cons item rest ih =>
    unfold applyPairs
    rw [List.all_cons, isPair]
    cases h : pair? item with
    | ok pair => exact ih (table.put pair.1 pair.2)
    | error fault => exact ⟨nofun, nofun⟩

theorem applyTo_table (change : Value) (table : Dict) :
    (applyTo change table).2 = table.putAll (appliedPairs change) := by
  cases change with
  | list items => exact applyPairs_table items table
  | tuple items => exact applyPairs_table items table
  | record _ _ _ items => exact applyPairs_table items table
  | text t => exact applyPairs_table _ table
  | _ => rfl

theorem applyTo_eq_ok_iff (change : Value) (table : Dict) :
    (applyTo change table).1 = .ok () ↔ goesThrough change = true := by
  cases change with
  | list items => exact applyPairs_eq_ok_iff items table
  | tuple items => exact applyPairs_eq_ok_iff items table
  | record _ _ _ items => exact applyPairs_eq_ok_iff items table
  | text t => exact applyPairs_eq_ok_iff _ table
  | dict entries => exact ⟨fun _ => rfl, fun _ => rfl⟩
  | _ => exact ⟨nofun, nofun⟩

def copiedNames : List String := ["SPDZ_FIXED_PRECISION", "MAX_SPLIT_NUM", "SPLIT_SENTINEL"]

def copiedEntries (table : Dict) : List Value := copiedNames.map (entry table)

def copies (s : Settings) : List Value := [s.precision, s.maxSplitNum, s.sentinel]

/-- Whether the copies are the entries of the table. -/
def InSync (s : Settings) : Prop := s.copies = copiedEntries s.table

theorem table_update (change : Value) (s : Settings) :
    (s.update change).2.table = s.table.putAll (appliedPairs change) := by
  rw [← applyTo_table]
  unfold update
  split
  · next h =>
    rw [h]
    rfl
  · next h => rw [h]

theorem update_eq_ok_iff : (s.update change).1 = .ok () ↔ goesThrough change = true := by
  rw [← applyTo_eq_ok_iff change s.table]
  unfold update
  split
  · next h => rw [h]
  · next h =>
    rw [h]

theorem inSync_update (h : goesThrough change = true) : (s.update change).2.InSync := by
  have hok := (applyTo_eq_ok_iff change s.table).mpr h
  unfold update
  split
  · rfl
  · next heq =>
    rw [heq] at hok
    cases hok

theorem copies_update (h : goesThrough change = false) : (s.update change).2.copies = s.copies := by
  unfold update
  split
  · next heq =>
    have hok : (applyTo change s.table).1 = .ok () := by rw [heq]
    rw [applyTo_eq_ok_iff, h] at hok
    cases hok
  · rfl

/-! ## Any number of updates -/

def updateAll (changes : List Value) (s : Settings) : Settings :=
  changes.foldl (fun s change => (s.update change).2) s

theorem updateAll_concat (changes : List Value) (change : Value) (s : Settings) :
    updateAll (changes ++ [change]) s = ((updateAll changes s).update change).2 :=
  List.foldl_concat ..

theorem table_updateAll (changes : List Value) (s : Settings) :
    (updateAll changes s).table = s.table.putAll (changes.flatMap appliedPairs) := by
  induction changes generalizing s with
  | nil => rfl
  | cons change rest ih =>
    have hstep : updateAll (change :: rest) s = updateAll rest (s.update change).2 := rfl
    rw [hstep, ih, table_update, List.flatMap_cons, putAll_append]

/-- The copies are the entries of the table after the last update that went through. -/
theorem copies_updateAll (changes : List Value) {s : Settings} (hs : s.InSync) :
    (updateAll changes s).copies =
      copiedEntries (updateAll (changes.rdropWhile (!goesThrough ·)) s).table := by
  induction changes using List.reverseRecOn with
  | nil => exact hs
  | append_singleton changes change ih =>
    cases h : goesThrough change with
    | true =>
      rw [List.rdropWhile_concat_neg _ _ _ (by simp [h]), updateAll_concat]
      exact inSync_update h
    | false =>
      rw [List.rdropWhile_concat_pos _ _ _ (by simp [h]), updateAll_concat, copies_update h, ih]

theorem inSync_default : default.InSync := rfl

theorem distinct_defaultTable : defaultTable.Distinct := by
  decide

theorem filter_isSingular_defaultTable : defaultTable.filter isSingular = [] := by
  rw [List.filter_eq_nil_iff]
  decide

/-- **The table follows every update, the copies follow those that go through.** Every key has the
last value that was applied to it, or else the one it had at first; a pair with a singular key has
an entry of its own. The copies are the entries as of the last update that went through, so they are
in step with the table after every such update. -/
theorem updateAll_isFollowed (changes : List Value) :
    let s := updateAll changes default
    let applied := changes.flatMap appliedPairs
    let last := updateAll (changes.rdropWhile (!goesThrough ·)) default
    (∀ key, s.table.get? key = (lastValue key applied).or (defaultTable.get? key)) ∧
    (∀ pair ∈ s.table, isSingular pair = false →
      (lastValue pair.1 applied).or (defaultTable.get? pair.1) = some pair.2) ∧
    s.table.filter isSingular = applied.filter isSingular ∧
    s.copies = copiedEntries last.table ∧
    (s.InSync ↔ copiedEntries last.table = copiedEntries s.table) ∧
    ∀ change, ((s.update change).1 = .ok () ↔ goesThrough change = true) ∧
      ((s.update change).1 = .ok () → (s.update change).2.InSync) := by
  intro s applied last
  have htable : s.table = defaultTable.putAll applied := table_updateAll changes default
  have hcopies : s.copies = copiedEntries last.table := copies_updateAll changes inSync_default
  have hget : ∀ key, s.table.get? key = (lastValue key applied).or (defaultTable.get? key) := by
    intro key
    rw [htable, get?_putAll]
  have hdistinct : s.table.Distinct := by
    rw [htable]
    exact distinct_defaultTable.putAll applied
  refine ⟨hget, ?_, ?_, hcopies, ?_, ?_⟩
  · intro pair hpair hkey
    rw [isSingular, Bool.not_eq_false'] at hkey
    rw [← hget]
    exact hdistinct.get?_of_mem hpair hkey
  · rw [htable, filter_isSingular_putAll, filter_isSingular_defaultTable, List.nil_append]
  · unfold InSync
    rw [hcopies]
  · intro change
    exact ⟨update_eq_ok_iff, fun hok => inSync_update (update_eq_ok_iff.mp hok)⟩

/-- One NaN as the key of two pairs is one key, two NaNs are two keys. -/
theorem updateAll_isFollowed_nan :
    let change : Value := .list [.tuple [.nan 0, .int 1], .tuple [.float .nan, .int 2],
      .tuple [.nan 0, .int 3], .tuple [.float .nan, .int 4]]
    let s := updateAll [change] default
    s.table.get? (.nan 0) = some (.int 3) ∧
      s.table.filter isSingular = [(.float .nan, .int 2), (.float .nan, .int 4)] ∧
      (default.update change).1 = .ok () ∧ (default.update change).2.InSync := by
  intro change s
  obtain ⟨hget, -, hsingular, -, -, hsync⟩ := updateAll_isFollowed [change]
  have hok : (default.update change).1 = .ok () := rfl
  exact ⟨hget (.nan 0), hsingular, hok, (hsync change).2 hok⟩

/-- A pair in front of an item that is none changes the table and not its copy. -/
theorem updateAll_leavesCopies :
    let change : Value := .list [.tuple [.text "MAX_SPLIT_NUM", .int 4], .tuple [.text "x"]]
    let s := updateAll [change] default
    (default.update change).1 = .error (.misuse .settingContent) ∧
      entry s.table "MAX_SPLIT_NUM" = .int 4 ∧ s.maxSplitNum = .int 8 ∧ ¬ s.InSync := by
  refine ⟨rfl, rfl, rfl, ?_⟩
  intro h
  have hcopy := congrArg (·[1]?) h
  cases hcopy

end Settings
end TreeParty
