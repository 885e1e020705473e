import Mathlib.Logic.Function.Basic
import PackedEdges.Proofs.AttributeAccess
import PackedEdges.Schema.Basic

/-! Calls that read and write single values, on a schema with its store and on a table that keeps
an integer for every cell. A cell is what an edge holds for one direction of an attribute. -/

namespace PackedEdges

inductive Call
  | read (name : String) (direction : Direction) (edge : Nat)
  | write (name : String) (direction : Direction) (edge : Nat) (value : Int32)

/-- What a caller learns from a call. -/
inductive Answer
  | value (v : Int)
  | stored
  | rejected
  | refused
deriving DecidableEq

namespace Call

def edge : Call → Nat
  | read _ _ edge => edge
  | write _ _ edge _ => edge

def Within (edges : Nat) (calls : List Call) : Prop :=
  ∀ call ∈ calls, call.edge < edges

variable {σ τ : Type}

def run (step : Call → σ → Answer × σ) : List Call → σ → List Answer × σ
  | [], s => ([], s)
  | call :: calls, s =>
    let (answer, s) := step call s
    let (answers, s) := run step calls s
    (answer :: answers, s)

theorem run_append (step : Call → σ → Answer × σ) (calls calls' : List Call) (s : σ) :
    (run step (calls ++ calls') s).2 = (run step calls' (run step calls s).2).2 := by
  induction calls generalizing s with
  | nil => rfl
  | cons call calls ih => exact ih (step call s).2

/-- States that stay related under every call give the same answers to all calls. -/
theorem run_related {step : Call → σ → Answer × σ} {step' : Call → τ → Answer × τ}
    {related : σ → τ → Prop} {allowed : Call → Prop}
    (hstep : ∀ call s t, allowed call → related s t →
      (step call s).1 = (step' call t).1 ∧ related (step call s).2 (step' call t).2)
    {calls : List Call} (hallowed : ∀ call ∈ calls, allowed call) {s : σ} {t : τ}
    (h : related s t) :
    (run step calls s).1 = (run step' calls t).1 ∧
      related (run step calls s).2 (run step' calls t).2 := by
  induction calls generalizing s t with
  | nil => exact ⟨rfl, h⟩
  | cons call calls ih =>
    obtain ⟨hanswer, hnext⟩ := hstep call s t (hallowed call List.mem_cons_self) h
    obtain ⟨hanswers, hlast⟩ := ih (fun c hc => hallowed c (List.mem_cons_of_mem _ hc)) hnext
    refine ⟨?_, hlast⟩
    change _ :: _ = _ :: _
    rw [hanswer, hanswers]

end Call

/-- A call on a schema and its store. Both may change, the schema by taking note of a value. -/
def Schema.perform : Call → Schema × EdgeStore → Answer × Schema × EdgeStore
  | .read name direction edge, (schema, store) =>
    match schema.read name direction edge store with
    | .done v => (.value v.toInt, schema, store)
    | .failed _ => (.rejected, schema, store)
    | .refused => (.refused, schema, store)
  | .write name direction edge value, (schema, store) =>
    match schema.write name direction edge value store with
    | (schema, .done store) => (.stored, schema, store)
    | (schema, .failed _) => (.rejected, schema, store)
    | (schema, .refused) => (.refused, schema, store)

def Schema.run (schema : Schema) (store : EdgeStore) (calls : List Call) :
    List Answer × Schema × EdgeStore :=
  Call.run perform calls (schema, store)

structure Cell where
  name : String
  side : Direction
  edge : Nat
deriving DecidableEq

/-- The integers of all cells, and the greatest value stored so far for every attribute. -/
structure Table where
  cells : Cell → Int
  greatest : String → Int32

namespace Table

/-- Every cell holds the minimum of its attribute before the first call. -/
def initial (schema : Schema) : Table where
  cells cell := ((schema.attribute? cell.name).map fun a => a.minimum.toInt).getD 0
  greatest _ := neverWritten

def store (table : Table) (a : Attribute) (direction : Direction) (edge : Nat) (value : Int32) :
    Table where
  cells := Function.update table.cells ⟨a.name, a.side direction, edge⟩
    (a.turn direction value.toInt)
  greatest := Function.update table.greatest a.name
    (Attribute.greater (table.greatest a.name) (a.turn direction value))

theorem cells_store_self (table : Table) (a : Attribute) (direction : Direction) (edge : Nat)
    (value : Int32) : (table.store a direction edge value).cells
      ⟨a.name, a.side direction, edge⟩ = a.turn direction value.toInt :=
  Function.update_self _ _ _

theorem cells_store_of_ne (table : Table) {a : Attribute} {direction : Direction} {edge : Nat}
    {cell : Cell} (h : cell ≠ ⟨a.name, a.side direction, edge⟩) (value : Int32) :
    (table.store a direction edge value).cells cell = table.cells cell :=
  Function.update_of_ne h _ _

/-- A call on a table; the schema only tells which attributes there are. -/
def perform (schema : Schema) : Call → Table → Answer × Table
  | .read name direction edge, table =>
    match schema.attribute? name with
    | some a => (.value (a.turn direction (table.cells ⟨name, a.side direction, edge⟩)), table)
    | none => (.rejected, table)
  | .write name direction edge value, table =>
    match schema.attribute? name with
    | some a =>
      if a.Accepts direction value.toInt then (.stored, table.store a direction edge value)
      else (.rejected, table)
    | none => (.rejected, table)

def run (schema : Schema) (calls : List Call) : List Answer × Table :=
  Call.run (perform schema) calls (initial schema)

end Table

/-- The cell that a call is about to write. -/
def Call.cell? (schema : Schema) : Call → Option Cell
  | .read _ _ _ => none
  | .write name direction edge _ =>
    (schema.attribute? name).map fun a => ⟨name, a.side direction, edge⟩

/-- The calls that are not about to write the cell. -/
def Call.without (schema : Schema) (cell : Cell) (calls : List Call) : List Call :=
  calls.filter fun call => call.cell? schema ≠ some cell

namespace Table

variable {schema : Schema} {call : Call} {cell : Cell}

/-- A call sets a cell to a value that depends on the call alone, or leaves it as it is. -/
theorem perform_cells_cases (schema : Schema) (call : Call) (cell : Cell) :
    (call.cell? schema = some cell ∧ ∃ v, ∀ table, (perform schema call table).2.cells cell = v) ∨
      ∀ table, (perform schema call table).2.cells cell = table.cells cell := by
  cases call with
  | read name direction edge =>
    right
    intro table
    cases hfind : schema.attribute? name <;> simp [perform, hfind]
  | write name direction edge value =>
    cases hfind : schema.attribute? name with
    | none => simp [perform, hfind]
    | some a =>
      by_cases hv : a.Accepts direction value.toInt
      · by_cases hcell : cell = ⟨a.name, a.side direction, edge⟩
        · obtain ⟨_, rfl⟩ := Schema.mem_of_attribute? hfind
          left
          refine ⟨by simp [Call.cell?, hfind, hcell], a.turn direction value.toInt, ?_⟩
          intro table
          simp [perform, hfind, hv, hcell, cells_store_self]
        · right
          intro table
          simp [perform, hfind, hv, cells_store_of_ne table hcell]
      · simp [perform, hfind, hv]

theorem perform_cells_of_ne (h : call.cell? schema ≠ some cell) (table : Table) :
    (perform schema call table).2.cells cell = table.cells cell := by
  rcases perform_cells_cases schema call cell with ⟨hcell, _⟩ | hsame
  · exact absurd hcell h
  · exact hsame table

theorem perform_cells_congr {table table' : Table} (h : table.cells cell = table'.cells cell)
    (call : Call) :
    (perform schema call table).2.cells cell = (perform schema call table').2.cells cell := by
  rcases perform_cells_cases schema call cell with ⟨_, v, hset⟩ | hsame
  · rw [hset, hset]
  · rw [hsame, hsame, h]

/-- Without the calls that write a cell, the cell keeps what it held and all others get the same
values. -/
theorem run_without_cells (schema : Schema) (cell : Cell) (calls : List Call)
    (table table' : Table) (hothers : ∀ other ≠ cell, table.cells other = table'.cells other) :
    (∀ other ≠ cell, (Call.run (perform schema) calls table).2.cells other =
        (Call.run (perform schema) (Call.without schema cell calls) table').2.cells other) ∧
      (Call.run (perform schema) (Call.without schema cell calls) table').2.cells cell =
        table'.cells cell := by
  -- Only the second table says what the cell holds, so the tables need not agree there.
  induction calls generalizing table table' with
  | nil => exact ⟨hothers, rfl⟩
  | cons call calls ih =>
    by_cases hcell : call.cell? schema = some cell
    · have hwithout : Call.without schema cell (call :: calls) = Call.without schema cell calls :=
        List.filter_cons_of_neg (by simpa using hcell)
      rw [hwithout]
      apply ih (perform schema call table).2 table'
      intro other hne
      rw [perform_cells_of_ne ?_, hothers other hne]
      rw [hcell]
      exact fun he => hne (Option.some.inj he).symm
    · have hwithout : Call.without schema cell (call :: calls) =
          call :: Call.without schema cell calls :=
        List.filter_cons_of_pos (by simpa using hcell)
      rw [hwithout]
      obtain ⟨hrest, hkept⟩ := ih (perform schema call table).2
        (perform schema call table').2
        fun other hne => perform_cells_congr (hothers other hne) call
      exact ⟨hrest, hkept.trans (perform_cells_of_ne hcell table')⟩

theorem store_comm (table : Table) {a b : Attribute} {direction direction' : Direction}
    {edge edge' : Nat} (hcells : (⟨a.name, a.side direction, edge⟩ : Cell) ≠
      ⟨b.name, b.side direction', edge'⟩) (value value' : Int32) :
    (table.store a direction edge value).store b direction' edge' value' =
      (table.store b direction' edge' value').store a direction edge value := by
  have hgreatest : ((table.store a direction edge value).store b direction' edge' value').greatest =
      ((table.store b direction' edge' value').store a direction edge value).greatest := by
    by_cases hname : a.name = b.name
    · simp only [store, hname, Function.update_self, Function.update_idem]
      rw [Attribute.greater_right_comm]
    · simp only [store, Function.update_of_ne hname, Function.update_of_ne (Ne.symm hname)]
      exact Function.update_comm hname _ _ _
  have hvalues : ((table.store a direction edge value).store b direction' edge' value').cells =
      ((table.store b direction' edge' value').store a direction edge value).cells :=
    Function.update_comm hcells _ _ _
  exact congrArg₂ Table.mk hvalues hgreatest

end Table

end PackedEdges
