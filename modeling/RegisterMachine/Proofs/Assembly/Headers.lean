import Mathlib.Data.List.Forall2
import RegisterMachine.Assembly.Macro
import RegisterMachine.Proofs.Assembly.Operands
import RegisterMachine.Proofs.Numerals
/-! Headers of macro definitions: which are accepted. Parameters are compared with their
placeholders by number, and so a plus sign or leading zeros get by. -/
namespace RegisterMachine

namespace Macro

def placeholder (k : Nat) : Token := '$' :: Nat.toDigits 10 k

def placeholders (n : Nat) : List Token := (List.range' 1 n).map placeholder

/-- The token is a dollar sign and the number, perhaps with a plus sign and with leading zeros. -/
inductive Spells (k : Nat) : Token → Prop
  | unsigned (zeros : Nat) : Spells k ('$' :: (List.replicate zeros '0' ++ Nat.toDigits 10 k))
  | signed (zeros : Nat) : Spells k ('$' :: '+' :: (List.replicate zeros '0' ++ Nat.toDigits 10 k))

def Padded (p : Token) : Prop := p[1]? = some '+' ∨ p[1]? = some '0'

theorem placeholderNumber?_eq_some_iff {p : Token} {k : Nat} :
    placeholderNumber? p = some k ↔ Spells k p := by
  constructor
  · intro h
    unfold placeholderNumber? at h
    split at h
    · obtain ⟨zeros, rfl⟩ := Numeral.magnitude?_eq_some_iff.1 h
      exact .signed zeros
    · obtain ⟨zeros, rfl⟩ := Numeral.magnitude?_eq_some_iff.1 h
      exact .unsigned zeros
    · cases h
  · rintro (zeros | zeros)
    · have value : Numeral.magnitude? 10 (List.replicate zeros '0' ++ Nat.toDigits 10 k) = some k :=
        Numeral.magnitude?_eq_some_iff.2 ⟨zeros, rfl⟩
      unfold placeholderNumber?
      split
      · -- a digit string does not start with a plus sign
        rename_i plus
        rw [(List.cons.inj plus).2] at value
        cases value
      · rename_i same
        rwa [← (List.cons.inj same).2]
      · rename_i none
        exact absurd rfl (none _)
    · exact Numeral.magnitude?_eq_some_iff.2 ⟨zeros, rfl⟩

theorem checkParams_eq_ok_iff {name : Token} {k : Nat} {params : List Token} :
    checkParams name k params = .ok () ↔
      List.Forall₂ Spells (List.range' k params.length) params := by
  induction params generalizing k with
  | nil => simp [checkParams]
  | cons p rest ih =>
    rw [List.length_cons, List.range'_succ, List.forall₂_cons, ← placeholderNumber?_eq_some_iff,
      checkParams]
    split
    · rename_i spelled
      simp [ih, spelled]
    · rename_i other
      simp [other]

theorem checkParams_error {name : Token} {k : Nat} {params : List Token} {p : Problem}
    (h : checkParams name k params = .error p) : p.errorClass = .malformedMacro := by
  induction params generalizing k with
  | nil => cases h
  | cons q rest ih =>
    unfold checkParams at h
    split at h
    · exact ih h
    · cases h
      rfl

/-- Without padding, the parameters that are accepted are the placeholders themselves. -/
theorem forall₂_spells_iff {params : List Token} :
    (List.Forall₂ Spells (List.range' 1 params.length) params ∧ ∀ p ∈ params, ¬Padded p) ↔
      params = placeholders params.length := by
  have unpadded (k : Nat) (positive : 0 < k) (p : Token) :
      Spells k p ∧ ¬Padded p ↔ p = placeholder k := by
    constructor
    · rintro ⟨spelled, plain⟩
      cases spelled with
      | unsigned zeros =>
        cases zeros with
        | zero => rfl
        | succ zeros => exact absurd (.inr rfl) plain
      | signed zeros => exact absurd (.inl rfl) plain
    · rintro rfl
      refine ⟨.unsigned 0, fun padded => ?_⟩
      rw [Padded, placeholder, List.getElem?_cons_succ, ← List.head?_eq_getElem?] at padded
      rcases padded with plus | zero
      · exact absurd (Numeral.isDigit_of_mem_digits (List.mem_of_head? plus)) (by decide)
      · exact Numeral.head_digits positive zero
  suffices ∀ k, 0 < k → ∀ params : List Token,
      (List.Forall₂ Spells (List.range' k params.length) params ∧ ∀ p ∈ params, ¬Padded p) ↔
        params = (List.range' k params.length).map placeholder from
    this 1 (by decide) params
  intro k positive params
  induction params generalizing k with
  | nil => simp
  | cons p rest ih =>
    rw [List.length_cons, List.range'_succ, List.forall₂_cons, List.forall_mem_cons,
      List.map_cons, List.cons.injEq, ← ih (k + 1) k.succ_pos, ← unpadded k positive]
    exact and_and_and_comm

structure Nameable (name : Token) : Prop where
  dollar : name.head? ≠ some '$'
  marker : name.head? ≠ some '#'
  colon : name.getLast? ≠ some ':'
  mnemonic : ∀ op : Opcode, op ≠ .invalid → Text.sameName op.mnemonic.toList name = false
  spelling : ∀ a ∈ Opcode.aliases, Text.sameName a.1.toList name = false
  register : ∀ r : Register, Text.sameName r.name.toList name = false

theorem ofMnemonic?_eq_none_iff {name : Token} :
    Opcode.ofMnemonic? name = none ↔
      (∀ op : Opcode, op ≠ .invalid → Text.sameName op.mnemonic.toList name = false) ∧
        ∀ a ∈ Opcode.aliases, Text.sameName a.1.toList name = false := by
  simp only [Opcode.ofMnemonic?, Option.or_eq_none_iff, Option.map_eq_none_iff,
    List.find?_eq_none, List.mem_filter, Opcode.mem_all, true_and, decide_eq_true_eq,
    Bool.not_eq_true]

theorem ofName?_eq_none_iff {name : Token} :
    Register.ofName? name = none ↔ ∀ r : Register, Text.sameName r.name.toList name = false := by
  simp only [Register.ofName?, List.find?_eq_none, Register.mem_all, true_implies,
    Bool.not_eq_true]

theorem checkName_eq_ok_iff {name : Token} : checkName name = .ok () ↔ Nameable name := by
  unfold checkName
  constructor
  · intro h
    split at h
    · cases h
    rename_i shape
    simp only [not_or] at shape
    split at h
    · cases h
    rename_i instruction
    split at h
    · cases h
    rename_i register
    obtain ⟨mnemonic, spelling⟩ := ofMnemonic?_eq_none_iff.1 (by simpa using instruction)
    exact ⟨shape.1, shape.2.2, shape.2.1, mnemonic, spelling,
      ofName?_eq_none_iff.1 (by simpa using register)⟩
  · rintro ⟨dollar, marker, colon, mnemonic, spelling, register⟩
    have noMnemonic := ofMnemonic?_eq_none_iff.2 ⟨mnemonic, spelling⟩
    have noRegister := ofName?_eq_none_iff.2 register
    simp [dollar, marker, colon, noMnemonic, noRegister]

theorem checkName_error {name : Token} {p : Problem} (h : checkName name = .error p) :
    p.errorClass = .malformedMacro := by
  unfold checkName at h
  split at h
  · cases h
    rfl
  split at h
  · cases h
    rfl
  split at h <;> cases h
  rfl

end Macro

namespace MacroTable
open Macro (Nameable Spells Padded placeholders)

structure Admits (t : MacroTable) (name : Token) : Prop where
  allowed : Nameable name
  unused : ∀ m ∈ t.defined, m.name ≠ name

variable {t : MacroTable} {line : Line} {first : Token}

theorem find?_eq_none_iff {name : Token} :
    t.find? name = none ↔ ∀ m ∈ t.defined, m.name ≠ name := by
  simp [find?]

theorem readHeader_named (closed : t.opened = none) {name : Token} {params : List Token}
    (cut : Text.words line = first :: name :: params) :
    t.readHeader line = Macro.checkName name >>= fun _ =>
      if (t.find? name).isSome then .error (.macroRedefined name)
      else Macro.checkParams name 1 params >>= fun _ => .ok (name, params) := by
  simp only [readHeader, closed, cut, List.drop_succ_cons, List.drop_zero]
  rfl

theorem readHeader_nameless (closed : t.opened = none) (cut : Text.words line = [first]) :
    t.readHeader line = .error .namelessMacro := by
  unfold readHeader
  rw [closed, cut]
  rfl

theorem readHeader_eq_ok_iff (closed : t.opened = none) {rest : List Token}
    (cut : Text.words line = first :: rest) {found : Token × List Token} :
    t.readHeader line = .ok found ↔ rest = found.1 :: found.2 ∧ t.Admits found.1 ∧
      List.Forall₂ Spells (List.range' 1 found.2.length) found.2 := by
  cases rest with
  | nil => simp [readHeader_nameless closed cut]
  | cons name params =>
    rw [readHeader_named closed cut, bind_eq_ok_iff]
    constructor
    · rintro ⟨u, allowed, h⟩
      split at h
      · cases h
      rename_i free
      obtain ⟨u, numbered, ⟨⟩⟩ := bind_eq_ok_iff.1 h
      have unused : t.find? name = none := by simpa using free
      exact ⟨rfl, ⟨Macro.checkName_eq_ok_iff.1 allowed, find?_eq_none_iff.1 unused⟩,
        Macro.checkParams_eq_ok_iff.1 numbered⟩
    · rintro ⟨same, ⟨allowed, unused⟩, numbered⟩
      obtain ⟨rfl, rfl⟩ := List.cons.inj same
      have free := find?_eq_none_iff.2 unused
      refine ⟨(), Macro.checkName_eq_ok_iff.2 allowed, ?_⟩
      rw [free]
      exact bind_eq_ok_iff.2 ⟨(), Macro.checkParams_eq_ok_iff.2 numbered, rfl⟩

theorem readHeader_error (closed : t.opened = none) {rest : List Token}
    (cut : Text.words line = first :: rest) {p : Problem} (h : t.readHeader line = .error p) :
    p.errorClass = .malformedMacro := by
  cases rest with
  | nil =>
    rw [readHeader_nameless closed cut] at h
    cases h
    rfl
  | cons name params =>
    rw [readHeader_named closed cut, bind_eq_error_iff] at h
    rcases h with misnamed | ⟨u, -, h⟩
    · exact Macro.checkName_error misnamed
    split at h
    · cases h
      rfl
    rcases bind_eq_error_iff.1 h with misnumbered | ⟨u, -, ⟨⟩⟩
    exact Macro.checkParams_error misnumbered

/-- A header is accepted when its name is free and its parameters spell the placeholders in order;
the placeholders themselves are the parameters that do so without a plus sign or leading zeros. A
header that is not accepted is malformed, and nothing comes of it. -/
theorem header_is_accepted_iff (closed : t.opened = none) {rest : List Token}
    (opens : Text.words line = Macro.opener :: rest) (nr : Nat) :
    let o := t.begin line nr
    (o.result = .ok () ↔ ∃ name params, rest = name :: params ∧ t.Admits name ∧
      List.Forall₂ Spells (List.range' 1 params.length) params) ∧
    (∀ name params, rest = name :: params → o.result = .ok () →
      o.state = { t with opened := some ⟨name, params, nr⟩ }) ∧
    (∀ name params, rest = name :: params →
      (o.result = .ok () ∧ (∀ p ∈ params, ¬Padded p) ↔
        t.Admits name ∧ params = placeholders params.length)) ∧
    ∀ e, o.result = .error e →
      e.line = nr ∧ e.problem.errorClass = .malformedMacro ∧ o.state = t := by
  intro o
  cases read : t.readHeader line with
  | error p =>
    have refused : o = .fail ⟨nr, p⟩ t := by simp only [o, begin, read]
    have unread : ∀ name params, ¬(rest = name :: params ∧ t.Admits name ∧
        List.Forall₂ Spells (List.range' 1 params.length) params) := by
      intro name params accepted
      have ok : t.readHeader line = .ok (name, params) :=
        (readHeader_eq_ok_iff closed opens).2 accepted
      simp [read] at ok
    rw [refused]
    refine ⟨?_, ?_, fun name params same => ?_, ?_⟩
    · simp only [Outcome.fail, reduceCtorEq, false_iff]
      rintro ⟨name, params, accepted⟩
      exact unread name params accepted
    · rintro _ _ _ ⟨⟩
    · simp only [Outcome.fail, reduceCtorEq, false_and, false_iff]
      rintro ⟨admitted, literal⟩
      exact unread name params ⟨same, admitted, (Macro.forall₂_spells_iff.2 literal).1⟩
    · rintro e ⟨⟩
      exact ⟨rfl, readHeader_error closed opens read, rfl⟩
  | ok found =>
    obtain ⟨rfl, admitted, spelled⟩ := (readHeader_eq_ok_iff closed opens).1 read
    have accepted : o = .ok () { t with opened := some ⟨found.1, found.2, nr⟩ }
        [.macroOpened nr found.1 found.2.length] := by
      simp only [o, begin, read]
    rw [accepted]
    refine ⟨?_, fun name params same _ => ?_, fun name params same => ?_, fun e error => ?_⟩
    · exact iff_of_true rfl ⟨_, _, rfl, admitted, spelled⟩
    · obtain ⟨rfl, rfl⟩ := List.cons.inj same
      rfl
    · obtain ⟨rfl, rfl⟩ := List.cons.inj same
      rw [← Macro.forall₂_spells_iff]
      simp [Outcome.ok, admitted, spelled]
    · cases error

theorem header_is_accepted_iff_padded :
    let t : MacroTable := { defined := [⟨"dec".toList, ["$1".toList], []⟩] }
    let line := "#begin swap $+1 $002".toList
    (t.begin line 7).result = .ok () ∧
      (t.begin line 7).state =
        { t with opened := some ⟨"swap".toList, ["$+1".toList, "$002".toList], 7⟩ } ∧
      t.Admits "swap".toList ∧
      (t.begin "#begin dec $1".toList 9).state = t := by
  intro t line
  have opens : Text.words line =
      Macro.opener :: ["swap".toList, "$+1".toList, "$002".toList] := by decide
  have opens' : Text.words "#begin dec $1".toList =
      Macro.opener :: ["dec".toList, "$1".toList] := by decide
  have accepted : (t.begin line 7).result = .ok () := by decide +kernel
  obtain ⟨accepts, opened, -, -⟩ := header_is_accepted_iff (t := t) rfl opens 7
  obtain ⟨-, -, -, refused⟩ := header_is_accepted_iff (t := t) rfl opens' 9
  obtain ⟨name, params, same, admitted, -⟩ := accepts.1 accepted
  obtain ⟨rfl, -⟩ := List.cons.inj same
  refine ⟨accepted, opened _ _ rfl accepted, admitted, ?_⟩
  exact (refused ⟨9, .macroRedefined "dec".toList⟩ (by decide +kernel)).2.2

/-- A parameter may be accepted that is not its placeholder. -/
theorem padded_parameter_is_accepted :
    ¬∀ (t : MacroTable) (line : Line) (name : Token) (params : List Token) (nr : Nat),
      t.opened = none → Text.words line = Macro.opener :: name :: params →
        ((t.begin line nr).result = .ok () ↔
          t.Admits name ∧ params = placeholders params.length) := by
  intro literal
  have accepts := literal {} "#begin m $01".toList "m".toList ["$01".toList] 1 rfl (by decide)
  have accepted : (({} : MacroTable).begin "#begin m $01".toList 1).result = .ok () := by
    decide +kernel
  exact absurd (accepts.1 accepted).2 (by decide)

end MacroTable

end RegisterMachine
