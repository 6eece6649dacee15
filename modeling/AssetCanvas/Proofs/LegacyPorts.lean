import AssetCanvas.Proofs.Renaming
import AssetCanvas.Proofs.Tables

/-!
# Legacy ports

A migration goes through the ports of a map twice: it keeps the current ones, and then moves the
legacy ones to their current names, unless these are taken.  A current name has one legacy name
only, so the second pass never meets a name that it has filled itself, and what it does to a port
is read off the given map: `Migration.migrate_eq`.  Hence no source is lost without a warning,
`Migration.Conserves`, and a second migration has nothing left to do.
-/

namespace AssetCanvas.Migration

variable {σ : Type} {label place : String} {ports before after : List (Key × σ)}

/-! ### The second pass -/

/-- A port under its current name, if it is a legacy one whose current name is not taken. -/
def moved? (label : String) (ports : List (Key × σ)) (entry : Key × σ) : Option (Key × σ) :=
  (replacement? label entry.1).bind fun current =>
    if Entries.contains ports (.text current) then none else some (.text current, entry.2)

/-- The warning for a port, if it is a legacy one. -/
def warning? (label place : String) (ports : List (Key × σ)) (entry : Key × σ) : Option String :=
  (replacement? label entry.1).map fun current =>
    if Entries.contains ports (.text current) then
      droppedMessage place entry.1.spelling current
    else
      movedMessage place entry.1.spelling current

/-- The ports that are current. -/
def kept (label : String) (ports : List (Key × σ)) : List (Key × σ) :=
  ports.filter fun entry => (replacement? label entry.1).isNone

theorem exists_text_of_replacement? {key : Key} {current : String}
    (h : replacement? label key = some current) :
  ∃ port, key = .text port
  := by
  cases key with
  | text port => exact ⟨port, rfl⟩
  | _ => cases h

/-- Whether a key is a legacy port depends on what it stands for only. -/
theorem replacement?_congr {key key' : Key} (h : (key == key') = true) :
  replacement? label key = replacement? label key'
  := by
  cases key with
  | text port => rw [Key.eq_of_beq_text (BEq.symm h)]
  | _ =>
    cases key' with
    | text port' =>
      have htext := Key.eq_of_beq_text h
      cases htext
    | _ => rfl

/-- The names of legacy ports are current. -/
theorem replacement?_of_replacement? {key : Key} {current : String}
    (h : replacement? label key = some current) :
  replacement? label (.text current) = none
  := by
  obtain ⟨port, rfl⟩ := exists_text_of_replacement? h
  exact replacement?_of_mem (mem_pairRenames h)

/-- Legacy ports with one current name are one port. -/
theorem beq_of_replacement? {key key' : Key} {current : String}
    (h : replacement? label key = some current) (h' : replacement? label key' = some current) :
  (key == key') = true
  := by
  obtain ⟨port, rfl⟩ := exists_text_of_replacement? h
  obtain ⟨port', rfl⟩ := exists_text_of_replacement? h'
  rw [eq_of_replacement? h h']
  exact BEq.rfl

theorem find?_kept {key : Key} (h : replacement? label key = none) :
  Entries.find? (kept label ports) key = Entries.find? ports key
  := by
  apply Entries.find?_filter_of
  intro entry _ hkey
  rw [replacement?_congr hkey, h]
  rfl

theorem exists_of_moved? {entry entry' : Key × σ} (h : moved? label ports entry = some entry') :
  ∃ current, replacement? label entry.1 = some current
    ∧ Entries.find? ports (.text current) = none ∧ entry' = (.text current, entry.2)
  := by
  obtain ⟨current, hcurrent, h⟩ := Option.bind_eq_some_iff.mp h
  obtain ⟨hfree, h⟩ := Option.ite_none_left_eq_some.mp h
  use current, hcurrent
  constructor
  · simpa [Entries.contains] using hfree
  · exact (Option.some.inj h).symm

/-- The second pass finds a name taken exactly if the given map has it. -/
theorem find?_pass {entry : Key × σ} (h : Entries.Distinct (before ++ entry :: after))
    {current : String} (hcurrent : replacement? label entry.1 = some current) :
  Entries.find? (kept label (before ++ entry :: after)
      ++ before.filterMap (moved? label (before ++ entry :: after))) (.text current)
    = Entries.find? (before ++ entry :: after) (.text current)
  := by
  have hnone : Entries.find? (before.filterMap (moved? label (before ++ entry :: after)))
      (.text current) = none := by
    apply Entries.find?_eq_none_iff.mpr
    intro entry' hmem
    obtain ⟨other, hother, hmoved⟩ := List.mem_filterMap.mp hmem
    obtain ⟨current', hcurrent', -, rfl⟩ := exists_of_moved? hmoved
    obtain ⟨-, -, hapart⟩ := Entries.distinct_append.mp h
    have hne := hapart other hother entry (by simp)
    rw [Key.text_beq_text, decide_eq_false_iff_not]
    rintro rfl
    rw [beq_of_replacement? hcurrent' hcurrent] at hne
    cases hne
  rw [Entries.find?_append, hnone, Option.or_none,
    find?_kept (replacement?_of_replacement? hcurrent)]

/-- The second pass moves a port, or drops it with a warning, by what the given map has. -/
theorem moveEntry_pass {entry : Key × σ} (h : Entries.Distinct (before ++ entry :: after)) :
  moveEntry label place
      (kept label (before ++ entry :: after)
          ++ before.filterMap (moved? label (before ++ entry :: after)),
        before.filterMap (warning? label place (before ++ entry :: after))) entry
    = (kept label (before ++ entry :: after)
          ++ (before ++ [entry]).filterMap (moved? label (before ++ entry :: after)),
        (before ++ [entry]).filterMap (warning? label place (before ++ entry :: after)))
  := by
  rw [List.filterMap_append, List.filterMap_append, ← List.append_assoc, moveEntry]
  cases hr : replacement? label entry.1 with
  | none => simp [moved?, warning?, hr]
  | some current =>
    have hfind := find?_pass h hr
    dsimp only
    rw [moveLegacy, Entries.contains, hfind]
    cases hport : Entries.find? (before ++ entry :: after) (.text current) with
    | some source => simp [moved?, warning?, hr, Entries.contains, hport]
    | none =>
      rw [hport] at hfind
      simp [moved?, warning?, hr, Entries.contains, hport, Entries.insert_of_find?_eq_none hfind]

/-- A migration keeps the current ports and moves the legacy ports whose current names are not
taken, with a warning for every legacy port. -/
theorem migrate_eq (h : Entries.Distinct ports) (context : String) :
  migrate label ports context
    = (kept label ports ++ ports.filterMap (moved? label ports),
      ports.filterMap (warning? label (if context = "" then label else context) ports))
  := by
  change ports.foldl (moveEntry label (if context = "" then label else context))
    (kept label ports, []) = _
  generalize (if context = "" then label else context) = place
  -- the ports before the next one are moved or dropped already
  suffices ∀ before after : List (Key × σ), before ++ after = ports →
      after.foldl (moveEntry label place)
          (kept label ports ++ before.filterMap (moved? label ports),
            before.filterMap (warning? label place ports))
        = (kept label ports ++ ports.filterMap (moved? label ports),
          ports.filterMap (warning? label place ports)) by
    simpa using this [] ports rfl
  intro before after hports
  induction after generalizing before with
  | nil =>
    rw [List.append_nil] at hports
    rw [hports, List.foldl_nil]
  | cons entry rest ih =>
    subst hports
    rw [List.foldl_cons, moveEntry_pass h]
    apply ih
    simp

/-! ### The migrated map -/

theorem distinct_foldl_moveEntry (entries : List (Key × σ)) {state : Migrated σ}
    (h : Entries.Distinct state.1) :
  Entries.Distinct (entries.foldl (moveEntry label place) state).1
  := by
  induction entries generalizing state with
  | nil => exact h
  | cons entry rest ih =>
    apply ih
    rw [moveEntry]
    cases replacement? label entry.1 with
    | none => exact h
    | some current =>
      simp only [moveLegacy]
      split
      · exact h
      · apply h.insert

theorem distinct_migrate (h : Entries.Distinct ports) (context : String) :
  Entries.Distinct (migrate label ports context).1
  := distinct_foldl_moveEntry ports (h.sublist List.filter_sublist)

/-- The ports of a migrated map are current. -/
theorem replacement?_of_mem_migrate (h : Entries.Distinct ports) {context : String}
    {entry : Key × σ} (hmem : entry ∈ (migrate label ports context).1) :
  replacement? label entry.1 = none
  := by
  rw [migrate_eq h] at hmem
  rcases List.mem_append.mp hmem with hkept | hmoved
  · simpa using (List.mem_filter.mp hkept).2
  · obtain ⟨other, -, hother⟩ := List.mem_filterMap.mp hmoved
    obtain ⟨current, hcurrent, -, rfl⟩ := exists_of_moved? hother
    exact replacement?_of_replacement? hcurrent

/-- A migrated map is not changed by a migration. -/
theorem migrate_of_current (h : Entries.Distinct ports)
    (hcurrent : ∀ entry ∈ ports, replacement? label entry.1 = none) (context : String) :
  migrate label ports context = (ports, [])
  := by
  have hkept : kept label ports = ports := by
    apply List.filter_eq_self.mpr
    intro entry hmem
    rw [hcurrent entry hmem]
    rfl
  have hmoved : ports.filterMap (moved? label ports) = [] := by
    apply List.filterMap_eq_nil_iff.mpr
    intro entry hmem
    rw [moved?, hcurrent entry hmem]
    rfl
  have hwarnings : ∀ place, ports.filterMap (warning? label place ports) = [] := by
    intro place
    apply List.filterMap_eq_nil_iff.mpr
    intro entry hmem
    rw [warning?, hcurrent entry hmem]
    rfl
  rw [migrate_eq h, hkept, hmoved, hwarnings, List.append_nil]

/-! ### Conservation -/

/-- A migration loses no source of a map without a warning. -/
structure Conserves (label place : String) (ports : List (Key × σ)) (migrated : Migrated σ) :
    Prop where
  /-- The keys of the migrated map are distinct. -/
  distinct : Entries.Distinct migrated.1
  /-- No legacy port is left. -/
  current : ∀ port, replacement? label port ≠ none → Entries.find? migrated.1 port = none
  /-- A current port keeps its source. -/
  kept : ∀ entry ∈ ports, replacement? label entry.1 = none →
    Entries.find? migrated.1 entry.1 = some entry.2
  /-- The current name of a legacy port has the source that it had, or else that of the port. -/
  moved : ∀ entry ∈ ports, ∀ current, replacement? label entry.1 = some current →
    Entries.find? migrated.1 (.text current)
      = (Entries.find? ports (.text current)).or (some entry.2)
  /-- There are no other ports. -/
  only : ∀ key ∈ Entries.keys migrated.1, key ∈ Entries.keys ports
    ∨ ∃ port ∈ Entries.keys ports, ∃ current,
      replacement? label port = some current ∧ key = .text current
  /-- There is a warning for every legacy port, which says whether its name was taken. -/
  warnings : migrated.2 = ports.filterMap (warning? label place ports)

theorem conserves_migrate (h : Entries.Distinct ports) (context : String) :
  Conserves label (if context = "" then label else context) ports (migrate label ports context)
  := by
  have hdistinct : Entries.Distinct (migrate label ports context).1 := distinct_migrate h context
  constructor
  · exact hdistinct
  · intro port hport
    apply Entries.find?_eq_none_iff.mpr
    intro entry hmem
    by_contra hkey
    rw [Bool.not_eq_false] at hkey
    rw [← replacement?_congr hkey] at hport
    exact hport (replacement?_of_mem_migrate h hmem)
  · intro entry hmem hcurrent
    rw [migrate_eq h, Entries.find?_append, find?_kept hcurrent, h.find?_of_mem hmem]
    rfl
  · intro entry hmem current hcurrent
    cases hport : Entries.find? ports (.text current) with
    | some source =>
      rw [migrate_eq h, Entries.find?_append,
        find?_kept (replacement?_of_replacement? hcurrent), hport]
      rfl
    | none =>
      apply hdistinct.find?_of_mem
      rw [migrate_eq h]
      apply List.mem_append_right
      apply List.mem_filterMap.mpr
      use entry, hmem
      simp [moved?, hcurrent, Entries.contains, hport]
  · intro key hkey
    obtain ⟨entry, hmem, rfl⟩ := List.mem_map.mp hkey
    rw [migrate_eq h] at hmem
    rcases List.mem_append.mp hmem with hkept | hmoved
    · left
      exact List.mem_map_of_mem (List.mem_of_mem_filter hkept)
    · right
      obtain ⟨other, hother, hmoved⟩ := List.mem_filterMap.mp hmoved
      obtain ⟨current, hcurrent, -, rfl⟩ := exists_of_moved? hmoved
      exact ⟨other.1, List.mem_map_of_mem hother, current, hcurrent, rfl⟩
  · rw [migrate_eq h]

theorem head?_toList_append {start rest : String} {c : Char} (h : start.toList.head? = some c) :
  (start ++ rest).toList.head? = some c
  := by
  rw [String.toList_append, List.head?_append, h, Option.some_or]

/-- The two warnings are told apart by how they begin. -/
theorem movedMessage_ne_droppedMessage (place port current place' port' current' : String) :
  movedMessage place port current ≠ droppedMessage place' port' current'
  := by
  have hmoved : (movedMessage place port current).toList.head? = some 'P' := by
    unfold movedMessage
    simp only [String.append_assoc]
    apply head?_toList_append
    decide
  have hdropped : (droppedMessage place' port' current').toList.head? = some 'L' := by
    unfold droppedMessage
    simp only [String.append_assoc]
    apply head?_toList_append
    decide
  intro heq
  rw [heq, hdropped] at hmoved
  cases hmoved

/-- A migration succeeds for every label and every map: it loses no source without a warning, a
port that is moved and one that is dropped have different warnings, and a second migration finds
nothing to do. -/
theorem exists_conserving (label : String) {ports : List (Key × σ)} (h : Entries.Distinct ports)
    (context : String) :
  ∃ migrated, migrateUnder (.str label) ports context = .ok migrated
    ∧ Conserves label (if context = "" then label else context) ports migrated
    ∧ (∀ place port current place' port' current',
      movedMessage place port current ≠ droppedMessage place' port' current')
    ∧ ∀ again, migrateUnder (.str label) migrated.1 again = .ok (migrated.1, [])
  := by
  use migrate label ports context, rfl, conserves_migrate h context, movedMessage_ne_droppedMessage
  intro again
  have hagain : migrate label (migrate label ports context).1 again
      = ((migrate label ports context).1, []) :=
    migrate_of_current (distinct_migrate h context)
      (fun _ hmem => replacement?_of_mem_migrate h hmem) again
  exact congrArg Except.ok hagain

/-- The ports of a sum, some of them legacy ones, of which the first is dropped. -/
def mixedPorts : List (Key × String) :=
  [("InputA", "old"), ("Inputs[0]", "new"), ("InputB", "second"), ("Input", "other")]

theorem exists_conserving_mixedPorts :
  Entries.Distinct mixedPorts
    ∧ ∃ migrated, migrateUnder (.str "Sum") mixedPorts "" = .ok migrated
      ∧ migrated.1 = [(.text "Inputs[0]", "new"), (.text "Input", "other"),
        (.text "Inputs[1]", "second")]
      ∧ migrated.2 = [droppedMessage "Sum" "InputA" "Inputs[0]",
        movedMessage "Sum" "InputB" "Inputs[1]"]
      ∧ Conserves "Sum" "Sum" mixedPorts migrated
  := by
  have hdistinct : Entries.Distinct mixedPorts := by
    simp [Entries.Distinct, Entries.keys, mixedPorts]
  obtain ⟨migrated, hmigrated, hconserves, -, -⟩ := exists_conserving "Sum" hdistinct ""
  obtain rfl := Except.ok.inj hmigrated
  exact ⟨hdistinct, _, rfl, rfl, rfl, hconserves⟩

end AssetCanvas.Migration
