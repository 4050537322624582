import MipsLab.Proofs.Emission

/-!
# What the first pass finds out

The first pass moves through the statements like the second one, and gives each name the place of
the first statement that has it as a label.

1. `Definitions.add_cursor`, `Definitions.ofStatements_cursor`: both passes are at the same place
   after the same statements.
2. `Definitions.add_address?`: what a statement does to the address of a name.
3. `Definitions.address?_first`: the address of a name is that of its first definition.
-/

namespace MipsLab

/-- Whether a name is a label of a statement. -/
def Statement.defines (s : Statement) (name : String) : Bool := s.labels.any (·.name = name)

namespace Definitions

/-! ## Places -/

theorem define_cursor (address : Address) (d : Definitions) (label : Label) :
    (define address d label).cursor = d.cursor := by
  unfold define
  split <;> rfl

/-- What no label changes is not changed by several of them. -/
theorem foldl_define_kept {β : Type} (part : Definitions → β) {address : Address}
    (h : ∀ d label, part (define address d label) = part d) (d : Definitions)
    (labels : List Label) : part (labels.foldl (define address) d) = part d := by
  induction labels generalizing d with
  | nil => rfl
  | cons label labels ih => rw [List.foldl_cons, ih, h]

theorem foldl_define_cursor (address : Address) (d : Definitions) (labels : List Label) :
    (labels.foldl (define address) d).cursor = d.cursor :=
  foldl_define_kept cursor (define_cursor address) d labels

theorem declareGlobal_cursor (d : Definitions) (s : Statement) :
    (d.declareGlobal s).cursor = d.cursor := by
  unfold declareGlobal
  split <;> rfl

theorem advance_cursor (d : Definitions) (s : Statement) :
    (d.advance s).cursor = (d.cursor.advance? s.byteCount).getD d.cursor := by
  unfold advance Statement.byteCount
  cases d.cursor.advance? ((s.body.map Body.byteCount).getD 0) with
  | some cursor => rfl
  | none =>
    simp only
    split <;> rfl

theorem add_cursor (d : Definitions) (s : Statement) : (d.add s).cursor = d.cursor.walk s := by
  unfold add Cursor.walk
  cases d.cursor.place? s.body with
  | none => exact foldl_define_cursor _ _ s.labels
  | some placed =>
    simp only
    rw [advance_cursor, declareGlobal_cursor, foldl_define_cursor]

end Definitions

theorem Definitions.ofStatements_walk (statements : List Statement) :
    (ofStatements statements).cursor = statements.foldl Cursor.walk .initial :=
  (List.foldl_hom cursor fun d s => (add_cursor d s).symm).symm

theorem Emission.ofStatements_walk (symbols : SymbolTable) (source : Source)
    (statements : List Statement) :
    (ofStatements symbols source statements).cursor = statements.foldl Cursor.walk .initial :=
  (List.foldl_hom cursor fun e s => (add_cursor e s).symm).symm

/-- Both passes are at the same place after the same statements. -/
theorem Definitions.ofStatements_cursor (symbols : SymbolTable) (source : Source)
    (statements : List Statement) :
    (ofStatements statements).cursor = (Emission.ofStatements symbols source statements).cursor :=
  (ofStatements_walk statements).trans (Emission.ofStatements_walk symbols source statements).symm

namespace Definitions

/-! ## Addresses of names -/

/-- A label gives its name an address unless the name has one. -/
theorem define_address? (address : Address) (d : Definitions) (label : Label) (name : String) :
    (define address d label).table.address? name =
      (d.table.address? name).or (if label.name = name then some address else none) := by
  unfold define
  cases hfind : d.table.find? label.name with
  | some first =>
    -- The label is a second definition, which leaves the table as it is.
    show d.table.address? name = _
    by_cases hname : label.name = name
    · rw [← hname, SymbolTable.address?, hfind, Option.map_some, Option.some_or]
    · rw [if_neg hname, Option.or_none]
  | none =>
    simp only [SymbolTable.address?, SymbolTable.find?, Array.find?_push]
    by_cases hname : label.name = name
    · rw [SymbolTable.find?, hname] at hfind
      simp [hfind, hname]
    · simp [hname]

theorem foldl_define_address? (address : Address) (d : Definitions) (labels : List Label)
    (name : String) :
    (labels.foldl (define address) d).table.address? name =
      (d.table.address? name).or
        (if labels.any (·.name = name) then some address else none) := by
  induction labels generalizing d with
  | nil => simp
  | cons label labels ih =>
    rw [List.foldl_cons, ih, define_address?, List.any_cons, Option.or_assoc]
    congr 1
    by_cases hname : label.name = name
    · simp [hname]
    · simp [hname]

theorem declareGlobal_address? (d : Definitions) (s : Statement) (name : String) :
    (d.declareGlobal s).table.address? name = d.table.address? name := by
  unfold declareGlobal
  split <;> rfl

theorem advance_table (d : Definitions) (s : Statement) : (d.advance s).table = d.table := by
  unfold advance
  split
  · rfl
  · split <;> rfl

/-- A statement gives an address to those of its labels that have none. It does so even if it does
not belong where it stands. -/
theorem add_address? (d : Definitions) (s : Statement) (name : String) :
    (d.add s).table.address? name = (d.table.address? name).or
      (if s.defines name then
        some (UInt32.ofNat ((d.cursor.place? s.body).getD d.cursor).current) else none) := by
  unfold add
  cases d.cursor.place? s.body with
  | none =>
    simp only
    rw [foldl_define_address?]
    rfl
  | some placed =>
    simp only
    rw [advance_table, declareGlobal_address?, foldl_define_address?]
    rfl

theorem foldl_add_address? {d : Definitions} {name : String} {address : Address}
    (h : d.table.address? name = some address) (statements : List Statement) :
    (statements.foldl add d).table.address? name = some address := by
  induction statements generalizing d with
  | nil => exact h
  | cons s statements ih =>
    refine ih ?_
    rw [add_address?, h, Option.some_or]

theorem foldl_add_address?_none {d : Definitions} {name : String} {statements : List Statement}
    (h : d.table.address? name = none) (hname : ∀ s ∈ statements, s.defines name = false) :
    (statements.foldl add d).table.address? name = none := by
  induction statements generalizing d with
  | nil => exact h
  | cons s statements ih =>
    refine ih ?_ fun t ht => hname t (List.mem_cons_of_mem s ht)
    rw [add_address?, h, hname s List.mem_cons_self]
    rfl

/-- The address of a name is the place of the first statement that has it as a label. -/
theorem address?_first {before : List Statement} {s : Statement} {name : String}
    (behind : List Statement) (hbefore : ∀ t ∈ before, t.defines name = false)
    (hs : s.defines name = true) :
    (ofStatements (before ++ s :: behind)).table.address? name =
      some (UInt32.ofNat (((ofStatements before).cursor.place? s.body).getD
        (ofStatements before).cursor).current) := by
  unfold ofStatements
  rw [List.foldl_append, List.foldl_cons]
  have hnone : (before.foldl add {}).table.address? name = none :=
    foldl_add_address?_none rfl hbefore
  refine foldl_add_address? ?_ behind
  rw [add_address?, hnone, hs, Option.none_or, if_pos rfl]

end Definitions

end MipsLab
