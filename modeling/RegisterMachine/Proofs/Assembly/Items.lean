import RegisterMachine.Assembly.Session
import RegisterMachine.Proofs.Assembly.Operands
/-! The first pass over source text: its label definitions and statements in the order in which they
are processed, with macro invocations expanded. It keeps no account of what the labels stand for. -/
namespace RegisterMachine

structure Statement where
  line : Nat
  op : Opcode
  operands : List Token
  deriving DecidableEq, Repr

inductive Item where
  | label (name : Token)
  | statement (st : Statement)
  deriving DecidableEq, Repr

namespace Statement

def labels (st : Statement) : List Token := labelsOf st.op.form.kinds st.operands

/-- `st.Encodes index i`: the instruction has the operation of the statement and the operands that
the statement writes, where labels stand for their indices. -/
def Encodes (index : Token → Option Nat) (st : Statement) (i : Instruction) : Prop :=
  i.opcode = st.op ∧ Written index st.op.form.kinds st.operands i.arguments

end Statement

def statements : List Item → List Statement
  | [] => []
  | .label _ :: rest => statements rest
  | .statement st :: rest => st :: statements rest

/-- The number of statements in front of the first definition of a label. -/
def definition? (label : Token) : List Item → Option Nat
  | [] => none
  | .label name :: rest => if name = label then some 0 else definition? label rest
  | .statement _ :: rest => (definition? label rest).map (· + 1)

theorem statements_append (u v : List Item) :
    statements (u ++ v) = statements u ++ statements v := by
  induction u with
  | nil => rfl
  | cons item rest ih => cases item <;> simp [statements, ih]

theorem definition?_append_label (label name : Token) (items : List Item) :
    definition? label (items ++ [.label name]) =
      (definition? label items).or
        (if name = label then some (statements items).length else none) := by
  induction items with
  | nil => rfl
  | cons item rest ih =>
    cases item with
    | label l =>
      by_cases h : l = label
      · simp [definition?, h]
      · simpa [definition?, h, statements] using ih
    | statement st =>
      simp only [List.cons_append, definition?, ih, statements, List.length_cons]
      by_cases h : name = label <;> cases definition? label rest <;> simp [h]

theorem definition?_append_statement (label : Token) (items : List Item) (st : Statement) :
    definition? label (items ++ [.statement st]) = definition? label items := by
  induction items with
  | nil => rfl
  | cons item rest ih => cases item <;> simp [definition?, ih]

theorem definition?_isSome_iff (label : Token) (items : List Item) :
    (definition? label items).isSome = true ↔ Item.label label ∈ items := by
  induction items with
  | nil => simp [definition?]
  | cons item rest ih =>
    cases item with
    | label l =>
      by_cases h : l = label
      · simp [definition?, h]
      · simpa [definition?, h, Ne.symm h] using ih
    | statement st => simpa [definition?] using ih

theorem definition?_le {label : Token} {items : List Item} {k : Nat}
    (h : definition? label items = some k) : k ≤ (statements items).length := by
  induction items generalizing k with
  | nil => simp [definition?] at h
  | cons item rest ih =>
    cases item with
    | label l =>
      by_cases hl : l = label
      · obtain rfl : 0 = k := by simpa [definition?, hl] using h
        exact Nat.zero_le _
      · exact ih (by simpa [definition?, hl] using h)
    | statement st =>
      obtain ⟨j, hj, rfl⟩ : ∃ j, definition? label rest = some j ∧ j + 1 = k := by
        simpa [definition?] using h
      exact Nat.succ_le_succ (ih hj)

structure Scan where
  macros : MacroTable := {}
  items : List Item := []
  deriving DecidableEq, Repr

namespace Scan

def add (item : Item) (s : Scan) : Scan := { s with items := s.items ++ [item] }

def operation (expand : List Line → Nat → Scan → Scan) (tokens : List Token) (nr : Nat)
    (s : Scan) : Scan :=
  match tokens with
  | [] => s.add (.statement ⟨nr, .noop, []⟩)
  | op :: args =>
    match s.macros.find? op with
    | some m =>
      match m.substitute args with
      | .ok body => expand body nr s
      | .error _ => s
    | none =>
      match Opcode.ofMnemonic? op with
      | some opcode => s.add (.statement ⟨nr, opcode, args⟩)
      | none => s

def words (expand : List Line → Nat → Scan → Scan) (tokens : List Token) (nr : Nat) (s : Scan) :
    Scan :=
  match tokens with
  | [] => operation expand [] nr s
  | first :: rest =>
    if Label.isMarked first then operation expand rest nr (s.add (.label first.dropLast))
    else operation expand (first :: rest) nr s

def lineWith (expand : List Line → Nat → Scan → Scan) (line : Line) (nr : Nat) (s : Scan) :
    Scan :=
  let line := Text.lower (Text.trim line)
  if Assembler.isSkipped line then s
  else if Macro.isOpener line then { s with macros := (s.macros.begin line nr).state }
  else if Macro.isCloser line then { s with macros := (s.macros.finish nr).state }
  else if s.macros.opened.isSome then { s with macros := s.macros.add line }
  else words expand (Text.words line) nr s

def line : Nat → Line → Nat → Scan → Scan
  | 0 => lineWith fun _ _ s => s
  | depth + 1 => lineWith fun body nr s => body.foldl (fun s l => line depth l nr s) s

def fragment : Nat → List Line → Scan → Scan
  | _, [], s => s
  | nr, l :: rest, s => fragment (nr + 1) rest (line maxMacroDepth l nr s)

end Scan

def itemsOf (fragments : List (List Line)) : List Item :=
  (fragments.foldl (fun s lines => s.fragment 1 lines) ({} : Scan)).items

end RegisterMachine
