import RegisterMachine.Proofs.Assembly.Spacing
/-! The grammar of instruction lines: an operation, and an operand of the right kind at each place.
A line that breaks it is rejected for the leftmost place at which it does. -/
namespace RegisterMachine

/-! ### Names -/

def Register.NamedBy (r : Register) (t : Token) : Prop := Text.sameName r.name.toList t = true

theorem Register.ofName?_congr {t u : Token} (same : t.map Char.toLower = u.map Char.toLower) :
    ofName? t = ofName? u := by
  simp only [ofName?, Text.sameName, same]

theorem Register.ofName?_eq_some_iff {t : Token} {r : Register} :
    ofName? t = some r ↔ r.NamedBy t := by
  constructor
  · intro h
    unfold ofName? at h
    have named := List.find?_some h
    exact named
  · intro named
    rw [ofName?_congr (beq_iff_eq.1 named).symm]
    cases r <;> decide

theorem Register.ofName?_eq_none_iff {t : Token} :
    ofName? t = none ↔ ∀ r : Register, ¬r.NamedBy t := by
  simp only [Option.eq_none_iff_forall_ne_some, ne_eq, ofName?_eq_some_iff]

inductive Opcode.NamedBy : Opcode → Token → Prop
  | mnemonic {op : Opcode} {t : Token} (real : op ≠ .invalid)
      (same : Text.sameName op.mnemonic.toList t = true) : NamedBy op t
  | load {t : Token} (same : Text.sameName "load".toList t = true) : NamedBy .loadI t

theorem Opcode.ofMnemonic?_congr {t u : Token} (same : t.map Char.toLower = u.map Char.toLower) :
    ofMnemonic? t = ofMnemonic? u := by
  simp only [ofMnemonic?, Text.sameName, same]

theorem Opcode.ofMnemonic?_eq_some_iff {t : Token} {op : Opcode} :
    ofMnemonic? t = some op ↔ op.NamedBy t := by
  constructor
  · intro h
    rcases Option.or_eq_some_iff.1 h with found | ⟨-, found⟩
    · have real := (List.mem_filter.1 (List.mem_of_find?_eq_some found)).2
      have same := List.find?_some found
      exact .mnemonic (by simpa using real) same
    · obtain ⟨a, spelled, rfl⟩ := Option.map_eq_some_iff.1 found
      have same := List.find?_some spelled
      obtain rfl := List.mem_singleton.1 (List.mem_of_find?_eq_some spelled)
      exact .load same
  · rintro (⟨real, same⟩ | same)
    · rw [ofMnemonic?_congr (beq_iff_eq.1 same).symm]
      cases op with
      | invalid => exact absurd rfl real
      | _ => decide
    · rw [ofMnemonic?_congr (beq_iff_eq.1 same).symm]
      decide

/-! ### Operands -/

namespace OperandKind

inductive Accepts : OperandKind → Token → Prop
  | register {t : Token} {r : Register} (named : r.NamedBy t) : Accepts .register t
  | immediate {t : Token} {w : Word} (value : Numeral.Spells t w) : Accepts .immediate t
  | number {t : Token} {w : Word} (nameless : ∀ r : Register, ¬r.NamedBy t)
      (value : Numeral.Spells t w) : Accepts .target t
  | label {t : Token} (nameless : ∀ r : Register, ¬r.NamedBy t) (word : Numeral.Wordy t) :
      Accepts .target t

inductive Objects : OperandKind → Token → Problem → Prop
  | unknown {t : Token} (nameless : ∀ r : Register, ¬r.NamedBy t) :
      Objects .register t (.unknownRegister t)
  | malformed {t : Token} {radix : Radix} (number : Numeral.Misspells t radix) :
      Objects .immediate t (.badImmediate radix t)
  | wordy {t : Token} (word : Numeral.Wordy t) :
      Objects .immediate t (.badImmediate .decimal t)
  | register {t : Token} {r : Register} (named : r.NamedBy t) :
      Objects .target t (.registerAsTarget t)
  | misnumbered {t : Token} {radix : Radix} (nameless : ∀ r : Register, ¬r.NamedBy t)
      (number : Numeral.Misspells t radix) : Objects .target t (.badTargetNumber radix t)

theorem Objects.not_accepts {kind : OperandKind} {t : Token} {p : Problem}
    (h : kind.Objects t p) : ¬kind.Accepts t := by
  intro accepts
  cases accepts with
  | register named =>
    cases h with
    | unknown nameless => exact nameless _ named
  | immediate value =>
    cases h with
    | malformed number => exact number.not_spells value
    | wordy word => exact word.not_spells value
  | number nameless value =>
    cases h with
    | register named => exact nameless _ named
    | misnumbered _ number => exact number.not_spells value
  | label nameless word =>
    cases h with
    | register named => exact nameless _ named
    | misnumbered _ number => exact number.not_wordy word

theorem Objects.unique {kind : OperandKind} {t : Token} {p q : Problem} (h : kind.Objects t p)
    (h' : kind.Objects t q) : p = q := by
  cases h with
  | unknown =>
    cases h'
    rfl
  | malformed number =>
    cases h' with
    | malformed number' =>
      rw [number.unique number']
    | wordy word => exact absurd word number.not_wordy
  | wordy word =>
    cases h' with
    | malformed number => exact absurd word number.not_wordy
    | wordy => rfl
  | register named =>
    cases h' with
    | register => rfl
    | misnumbered nameless => exact absurd named (nameless _)
  | misnumbered nameless number =>
    cases h' with
    | register named => exact absurd named (nameless _)
    | misnumbered _ number' => rw [number.unique number']

end OperandKind

/-- The leftmost thing that is wrong with the operands of an operation: a token that is not of its
kind, a place without a token, or else a token without a place. -/
inductive FirstFault : List OperandKind → List Token → Problem → Prop
  | here {kind : OperandKind} {kinds : List OperandKind} {t : Token} {ts : List Token} {p : Problem}
      (objects : kind.Objects t p) : FirstFault (kind :: kinds) (t :: ts) p
  | absent {kind : OperandKind} {kinds : List OperandKind} :
      FirstFault (kind :: kinds) [] (.missingOperand kind)
  | surplus {t : Token} {ts : List Token} : FirstFault [] (t :: ts) (.surplusOperand t)
  | later {kind : OperandKind} {kinds : List OperandKind} {t : Token} {ts : List Token}
      {p : Problem} (accepts : kind.Accepts t) (rest : FirstFault kinds ts p) :
      FirstFault (kind :: kinds) (t :: ts) p

namespace FirstFault
variable {kinds : List OperandKind} {ts : List Token} {p q : Problem}

theorem not_accepts (h : FirstFault kinds ts p) : ¬List.Forall₂ OperandKind.Accepts kinds ts := by
  induction h with
  | here objects =>
    rintro (_ | ⟨accepts, -⟩)
    exact objects.not_accepts accepts
  | absent | surplus => exact nofun
  | later _ _ ih =>
    rintro (_ | ⟨-, rest⟩)
    exact ih rest

theorem unique (h : FirstFault kinds ts p) (h' : FirstFault kinds ts q) : p = q := by
  induction h with
  | here objects =>
    cases h' with
    | here objects' => exact objects.unique objects'
    | later accepts => exact absurd accepts objects.not_accepts
  | absent | surplus =>
    cases h'
    rfl
  | later accepts _ ih =>
    cases h' with
    | here objects => exact absurd accepts objects.not_accepts
    | later _ rest => exact ih rest

end FirstFault

inductive Meaning where
  | known (a : Argument)
  | awaited (label : Token)
  deriving DecidableEq, Repr

def Meaning.ofTarget : Target → Meaning
  | .index w => .known (.word w)
  | .label l => .awaited l

/-- What a token stands for at the place of an operand, where `bound` gives labels their numbers. -/
inductive Denotes (bound : Token → Option Nat) : OperandKind → Token → Meaning → Prop
  | register {t : Token} {r : Register} (named : r.NamedBy t) :
      Denotes bound .register t (.known (.register r))
  | immediate {t : Token} {w : Word} (value : Numeral.Spells t w) :
      Denotes bound .immediate t (.known (.word w))
  | number {t : Token} {w : Word} (nameless : ∀ r : Register, ¬r.NamedBy t)
      (value : Numeral.Spells t w) : Denotes bound .target t (.known (.word w))
  | defined {t : Token} {k : Nat} (nameless : ∀ r : Register, ¬r.NamedBy t)
      (word : Numeral.Wordy t) (index : bound t = some k) :
      Denotes bound .target t (.known (.word (.ofNat k)))
  | undefined {t : Token} (nameless : ∀ r : Register, ¬r.NamedBy t)
      (word : Numeral.Wordy t) (index : bound t = none) :
      Denotes bound .target t (.awaited t)

inductive AllDenote (bound : Token → Option Nat) :
    List OperandKind → List Token → List Meaning → Prop
  | nil : AllDenote bound [] [] []
  | cons {kind : OperandKind} {kinds : List OperandKind} {t : Token} {ts : List Token}
      {x : Meaning} {xs : List Meaning} (first : Denotes bound kind t x)
      (rest : AllDenote bound kinds ts xs) : AllDenote bound (kind :: kinds) (t :: ts) (x :: xs)

def Branch.sources : Branch → List Register
  | .always => []
  | .onZero a | .onNotZero a => [a]
  | .on _ a b => [a, b]

namespace Draft

def opcode : Draft → Opcode
  | .complete i => i.opcode
  | .waiting b _ => b.opcode

def operands : Draft → List Meaning
  | .complete i => i.arguments.map .known
  | .waiting b l => b.sources.map (fun r => .known (.register r)) ++ [.awaited l]

end Draft

section Denoting
variable {bound : Token → Option Nat} {kinds : List OperandKind} {ts : List Token}
  {xs : List Meaning}

theorem Denotes.accepts {kind : OperandKind} {t : Token} {x : Meaning}
    (h : Denotes bound kind t x) : kind.Accepts t := by
  cases h with
  | register named => exact .register named
  | immediate value => exact .immediate value
  | number nameless value => exact .number nameless value
  | defined nameless word | undefined nameless word => exact .label nameless word

theorem AllDenote.accepts (h : AllDenote bound kinds ts xs) :
    List.Forall₂ OperandKind.Accepts kinds ts := by
  induction h with
  | nil => exact .nil
  | cons first _ ih => exact .cons first.accepts ih

theorem AllDenote.surplus (h : AllDenote bound kinds ts xs) (t : Token) (rest : List Token) :
    FirstFault kinds (ts ++ t :: rest) (.surplusOperand t) := by
  induction h with
  | nil => exact .surplus
  | cons first _ ih => exact .later first.accepts ih

end Denoting

/-! ### Reading -/

section Reading
open Operand
variable (bound : Token → Option Nat)

def scanOne : OperandKind → List Token → Except Problem (Meaning × List Token)
  | .register, ts => (fun x => (.known (.register x.1), x.2)) <$> takeRegister ts
  | .immediate, ts => (fun x => (.known (.word x.1), x.2)) <$> takeImmediate ts
  | .target, ts => (fun x => (.ofTarget x.1, x.2)) <$> takeTarget bound ts

def scan : List OperandKind → List Token → Except Problem (List Meaning × List Token)
  | [], ts => pure ([], ts)
  | kind :: kinds, ts => do
    let (x, rest) ← scanOne bound kind ts
    let (xs, rest) ← scan kinds rest
    return (x :: xs, rest)

theorem scanOne_nil (kind : OperandKind) :
    scanOne bound kind [] = .error (.missingOperand kind) := by
  cases kind <;> rfl

theorem scanOne_cons (kind : OperandKind) (t : Token) (rest : List Token) :
    (∃ x, Denotes bound kind t x ∧ scanOne bound kind (t :: rest) = .ok (x, rest)) ∨
      ∃ p, kind.Objects t p ∧ scanOne bound kind (t :: rest) = .error p := by
  cases kind with
  | register =>
    cases hr : Register.ofName? t with
    | some r =>
      exact .inl ⟨_, .register (Register.ofName?_eq_some_iff.1 hr), by
        simp [scanOne, takeRegister, hr, Functor.map, Except.map]⟩
    | none =>
      exact .inr ⟨_, .unknown (Register.ofName?_eq_none_iff.1 hr), by
        simp [scanOne, takeRegister, hr, Functor.map, Except.map]⟩
  | immediate =>
    cases hn : Numeral.read t with
    | value w =>
      exact .inl ⟨_, .immediate (Numeral.read_eq_value_iff.1 hn), by
        simp [scanOne, takeImmediate, hn, Functor.map, Except.map]⟩
    | malformed radix =>
      exact .inr ⟨_, .malformed (Numeral.read_eq_malformed_iff.1 hn), by
        simp [scanOne, takeImmediate, hn, Functor.map, Except.map]⟩
    | other =>
      exact .inr ⟨_, .wordy (Numeral.read_eq_other_iff.1 hn), by
        simp [scanOne, takeImmediate, hn, Functor.map, Except.map]⟩
  | target =>
    cases hr : Register.ofName? t with
    | some r =>
      exact .inr ⟨_, .register (Register.ofName?_eq_some_iff.1 hr), by
        simp [scanOne, takeTarget, hr, Functor.map, Except.map]⟩
    | none =>
      have nameless := Register.ofName?_eq_none_iff.1 hr
      cases hn : Numeral.read t with
      | value w =>
        exact .inl ⟨_, .number nameless (Numeral.read_eq_value_iff.1 hn), by
          simp [scanOne, takeTarget, hr, hn, Functor.map, Except.map, Meaning.ofTarget]⟩
      | malformed radix =>
        exact .inr ⟨_, .misnumbered nameless (Numeral.read_eq_malformed_iff.1 hn), by
          simp [scanOne, takeTarget, hr, hn, Functor.map, Except.map]⟩
      | other =>
        have word := Numeral.read_eq_other_iff.1 hn
        cases hb : bound t with
        | some k =>
          exact .inl ⟨_, .defined nameless word hb, by
            simp [scanOne, takeTarget, hr, hn, hb, Functor.map, Except.map,
              Meaning.ofTarget]⟩
        | none =>
          exact .inl ⟨_, .undefined nameless word hb, by
            simp [scanOne, takeTarget, hr, hn, hb, Functor.map, Except.map,
              Meaning.ofTarget]⟩

theorem scan_spec (kinds : List OperandKind) (ts : List Token) :
    (∃ used xs rest, ts = used ++ rest ∧ AllDenote bound kinds used xs ∧
        scan bound kinds ts = .ok (xs, rest)) ∨
      ∃ p, FirstFault kinds ts p ∧ scan bound kinds ts = .error p := by
  induction kinds generalizing ts with
  | nil => exact .inl ⟨[], [], ts, rfl, .nil, rfl⟩
  | cons kind kinds ih =>
    cases ts with
    | nil => exact .inr ⟨_, .absent, by rw [scan, scanOne_nil]; rfl⟩
    | cons t ts =>
      rcases scanOne_cons bound kind t ts with ⟨x, denotes, read⟩ | ⟨p, objects, read⟩
      · rcases ih ts with ⟨used, xs, rest, rfl, all, reads⟩ | ⟨p, fault, reads⟩
        · refine .inl ⟨t :: used, x :: xs, rest, rfl, .cons denotes all, ?_⟩
          rw [scan, read]
          simp only [bind, Except.bind, reads]
          rfl
        · refine .inr ⟨p, .later denotes.accepts fault, ?_⟩
          rw [scan, read]
          simp only [bind, Except.bind, reads]
      · exact .inr ⟨p, .here objects, by rw [scan, read]; rfl⟩

end Reading

namespace Draft

theorem arguments_branch (b : Branch) (w : Word) :
    (Instruction.branch b w).arguments = b.sources.map .register ++ [.word w] := by
  cases b <;> rfl

theorem opcode_ofTarget (b : Branch) (goal : Target) : (ofTarget b goal).opcode = b.opcode := by
  cases goal <;> rfl

theorem operands_ofTarget {b : Branch} (args : List Argument)
    (h : ∀ w, (Instruction.branch b w).arguments = args ++ [.word w]) (goal : Target) :
    (ofTarget b goal).operands = args.map .known ++ [.ofTarget goal] := by
  cases goal with
  | index w =>
    rw [ofTarget, operands, h, List.map_append]
    rfl
  | label l =>
    have same : b.sources.map .register = args :=
      List.append_cancel_right ((arguments_branch b 0).symm.trans (h 0))
    rw [ofTarget, operands, ← same, List.map_map]
    rfl

end Draft

namespace Form

/-- A form reads operands of its kinds and makes an instruction of them. -/
theorem take_scan {op : Opcode} {form : Form} (makes : form.Makes op) (bound : Token → Option Nat)
    (ts : List Token) :
    (fun x => (x.1.opcode, x.1.operands, x.2)) <$> form.take bound ts =
      (fun x => (op, x.1, x.2)) <$> scan bound form.kinds ts := by
  -- both sides read the same operands one after the other, and differ in what they make of them
  cases form with
  | plain i =>
    obtain ⟨rfl, arguments⟩ := makes
    have operands : (Draft.complete i).operands = [] := by rw [Draft.operands, arguments]; rfl
    simp only [take, scan, kinds, map_pure, ← operands]
    rfl
  | reg | regImm | regReg | regRegReg | regImmReg =>
    simp only [Makes] at makes
    simp only [take, scan, kinds, scanOne, map_bind, bind_map_left, map_pure, bind_assoc,
      pure_bind, Draft.opcode, Draft.operands, makes, List.map_cons, List.map_nil]
  | target b =>
    have operands := Draft.operands_ofTarget [] fun w => (makes w).2
    have opcode : b.opcode = op := (makes 0).1
    simp only [take, scan, kinds, scanOne, map_bind, bind_map_left, map_pure, pure_bind,
      Draft.opcode_ofTarget, opcode, operands, List.map_nil, List.nil_append]
  | regTarget make =>
    have operands (a : Register) :=
      Draft.operands_ofTarget [.register a] fun w => (makes a w).2
    have opcode (a : Register) : (make a).opcode = op := (makes a 0).1
    simp only [take, scan, kinds, scanOne, map_bind, bind_map_left, map_pure, bind_assoc,
      pure_bind, Draft.opcode_ofTarget, opcode, operands, List.map_cons, List.map_nil,
      List.cons_append, List.nil_append]
  | regRegTarget make =>
    have operands (a b : Register) :=
      Draft.operands_ofTarget [.register a, .register b] fun w => (makes a b w).2
    have opcode (a b : Register) : (make a b).opcode = op := (makes a b 0).1
    simp only [take, scan, kinds, scanOne, map_bind, bind_map_left, map_pure, bind_assoc,
      pure_bind, Draft.opcode_ofTarget, opcode, operands, List.map_cons, List.map_nil,
      List.cons_append, List.nil_append]

theorem read_spec (op : Opcode) (bound : Token → Option Nat) (ts : List Token) :
    (∃ d : Draft, d.opcode = op ∧ AllDenote bound op.form.kinds ts d.operands ∧
        op.form.read bound ts = .ok d) ∨
      ∃ p, FirstFault op.form.kinds ts p ∧ op.form.read bound ts = .error p := by
  have same := take_scan (makes_form op) bound ts
  -- form and scan fail together, so that the fault of the scan is the one that is reported
  rcases scan_spec bound op.form.kinds ts with ⟨used, xs, rest, rfl, all, hs⟩ | ⟨p, fault, hs⟩
  · rw [hs] at same
    cases ht : op.form.take bound (used ++ rest) with
    | error p => rw [ht] at same; cases same
    | ok found =>
      obtain ⟨opcode, rfl, rfl⟩ : found.1.opcode = op ∧ found.1.operands = xs ∧ found.2 = rest := by
        simpa [ht, Functor.map, Except.map] using same
      obtain ⟨d, rest⟩ := found
      cases rest with
      | nil =>
        rw [List.append_nil] at ht ⊢
        exact .inl ⟨d, opcode, all, by rw [read, ht]; rfl⟩
      | cons t rest => exact .inr ⟨_, all.surplus t rest, by rw [read, ht]; rfl⟩
  · rw [hs] at same
    cases ht : op.form.take bound ts with
    | ok found => rw [ht] at same; cases same
    | error q =>
      obtain rfl : q = p := by simpa [ht, Functor.map, Except.map] using same
      exact .inr ⟨q, fault, by rw [read, ht]; rfl⟩

end Form

/-! ### Lines -/

theorem Opcode.NamedBy.unique {op op' : Opcode} {t : Token} (h : op.NamedBy t)
    (h' : op'.NamedBy t) : op = op' :=
  Option.some.inj ((ofMnemonic?_eq_some_iff.2 h).symm.trans (ofMnemonic?_eq_some_iff.2 h'))

def WellFormed (op : Token) (args : List Token) : Prop :=
  ∃ opcode : Opcode, opcode.NamedBy op ∧ List.Forall₂ OperandKind.Accepts opcode.form.kinds args

inductive Rejected (op : Token) (args : List Token) : Problem → Prop
  | unknown (nameless : ∀ opcode : Opcode, ¬opcode.NamedBy op) :
      Rejected op args (.unknownOperation op)
  | operands {opcode : Opcode} {p : Problem} (named : opcode.NamedBy op)
      (fault : FirstFault opcode.form.kinds args p) : Rejected op args p

namespace Rejected
variable {op : Token} {args : List Token} {p q : Problem}

theorem not_wellFormed (h : Rejected op args p) : ¬WellFormed op args := by
  rintro ⟨opcode, named, accepts⟩
  cases h with
  | unknown nameless => exact nameless opcode named
  | operands named' fault =>
    obtain rfl := named.unique named'
    exact fault.not_accepts accepts

theorem unique (h : Rejected op args p) (h' : Rejected op args q) : p = q := by
  cases h with
  | unknown nameless =>
    cases h' with
    | unknown => rfl
    | operands named => exact absurd named (nameless _)
  | operands named fault =>
    cases h' with
    | unknown nameless => exact absurd named (nameless _)
    | operands named' fault' =>
      obtain rfl := named.unique named'
      exact fault.unique fault'

end Rejected

namespace Assembler

/-- The words make an instruction line: no definition is open, and the first word is no macro, no
label, no comment and no marker of a definition. -/
structure Instructs (asm : Assembler) (op : Token) (args : List Token) : Prop where
  closed : asm.macros.opened = none
  undefined : asm.macros.find? op = none
  unlabelled : Label.isMarked op = false
  uncommented : "//".toList.isPrefixOf op = false
  notOpener : op ≠ Macro.opener
  notCloser : op :: args ≠ [Macro.closer]

section Line
variable {asm : Assembler} {op : Token} {args : List Token}

theorem Instructs.takeLineWith (h : asm.Instructs op args) {line : Line}
    (cut : Text.tokens line = op :: args) (expand : Expansion) (nr : Nat) :
    asm.takeLineWith expand line nr = asm.takeInstruction op args nr := by
  have first := Text.head_lower (Text.head_trim line)
  rw [← Text.words_taken] at cut
  have skipped : isSkipped (Text.lower (Text.trim line)) = false := by
    rw [isSkipped_eq first, cut]
    exact h.uncommented
  have opener : Macro.isOpener (Text.lower (Text.trim line)) = false := by
    simp [Macro.isOpener, cut, h.notOpener]
  have closer : Macro.isCloser (Text.lower (Text.trim line)) = false := by
    rw [isCloser_eq, cut]
    exact beq_eq_false_iff_ne.2 h.notCloser
  simp [Assembler.takeLineWith, takeTrimmed, skipped, opener, closer, h.closed, cut, takeWords,
    h.unlabelled, takeOperation, h.undefined]

theorem Instructs.takeLine (h : asm.Instructs op args) {line : Line}
    (cut : Text.tokens line = op :: args) (depth nr : Nat) :
    asm.takeLine depth line nr = asm.takeInstruction op args nr := by
  cases depth <;> exact h.takeLineWith cut _ nr

theorem takeInstruction_spec (asm : Assembler) (op : Token) (args : List Token) (nr : Nat) :
    (∃ d : Draft, d.opcode.NamedBy op ∧
        AllDenote asm.bound? d.opcode.form.kinds args d.operands ∧
        (asm.takeInstruction op args nr).result = .ok () ∧
        (asm.takeInstruction op args nr).state = (asm.emit d nr).state) ∨
      ∃ p, Rejected op args p ∧ (asm.takeInstruction op args nr).result = .error ⟨nr, p⟩ ∧
        (asm.takeInstruction op args nr).state = asm := by
  cases hop : Opcode.ofMnemonic? op with
  | none =>
    have nameless (opcode : Opcode) (named : opcode.NamedBy op) : False := by
      simp [Opcode.ofMnemonic?_eq_some_iff.2 named] at hop
    refine .inr ⟨_, .unknown nameless, ?_⟩
    rw [takeInstruction, hop]
    exact ⟨rfl, rfl⟩
  | some opcode =>
    have named := Opcode.ofMnemonic?_eq_some_iff.1 hop
    rcases Form.read_spec opcode asm.bound? args with ⟨d, rfl, all, read⟩ | ⟨p, fault, read⟩
    · refine .inl ⟨d, named, all, ?_⟩
      simp only [takeInstruction, hop, read]
      exact ⟨by cases d <;> rfl, rfl⟩
    · refine .inr ⟨p, .operands named fault, ?_⟩
      simp only [takeInstruction, hop, read]
      exact ⟨rfl, rfl⟩

/-- An instruction line is accepted if it is well-formed, and then puts one instruction with the
operation and the operands that it names at the end of the program, or one branch that waits for its
label. Else it has no effect, and is rejected for an unknown operation or for the leftmost thing
that is wrong with its operands. -/
theorem instruction_lines_follow_grammar (h : asm.Instructs op args) {line : Line}
    (cut : Text.tokens line = op :: args) (depth nr : Nat) :
    let o := asm.takeLine depth line nr
    (o.result = .ok () ↔ WellFormed op args) ∧
      (WellFormed op args → ∃ d : Draft, d.opcode.NamedBy op ∧
        AllDenote asm.bound? d.opcode.form.kinds args d.operands ∧
        o.state = { asm with
          pending := asm.pending ++ (d.label?.map fun l => (l, asm.slots.size)).toList.toArray
          slots := asm.slots.push ⟨nr, d⟩ }) ∧
      (∀ e, o.result = .error e ↔ e.line = nr ∧ Rejected op args e.problem) ∧
      ∀ e, o.result = .error e → o.state = asm := by
  intro o
  have same : o = asm.takeInstruction op args nr := h.takeLine cut depth nr
  rcases asm.takeInstruction_spec op args nr with
    ⟨d, named, all, result, state⟩ | ⟨p, rejected, result, state⟩
  · have wellFormed : WellFormed op args := ⟨d.opcode, named, all.accepts⟩
    rw [same, result, state, emit_state]
    refine ⟨iff_of_true rfl wellFormed, fun _ => ⟨d, named, all, rfl⟩, fun e => ?_, nofun⟩
    exact iff_of_false nofun fun ⟨_, rejected⟩ => rejected.not_wellFormed wellFormed
  · rw [same, result, state]
    refine ⟨iff_of_false nofun rejected.not_wellFormed,
      fun wellFormed => absurd wellFormed rejected.not_wellFormed, fun e => ?_, fun _ _ => rfl⟩
    constructor
    · rintro ⟨⟩
      exact ⟨rfl, rejected⟩
    · rintro ⟨line, rejected'⟩
      rw [rejected.unique rejected', ← line]

end Line

theorem instruction_lines_follow_grammar_leftmost :
    let take (line : String) := ({} : Assembler).takeLine 64 line.toList 7
    (take " BOLT v0 ZE Loop ").result = .ok () ∧
      (take " BOLT v0 ZE Loop ").state.slots.map Slot.line = #[7] ∧
      (take "addi v0 0b12 loop 9").result =
        .error ⟨7, .badImmediate .binary "0b12".toList⟩ := by
  intro take
  have branch : Text.tokens " BOLT v0 ZE Loop ".toList =
      "bolt".toList :: ["v0", "ze", "loop"].map String.toList := by decide
  have sum : Text.tokens "addi v0 0b12 loop 9".toList =
      "addi".toList :: ["v0", "0b12", "loop", "9"].map String.toList := by decide
  have plain (op : Token) (args : List Token) (unlabelled : Label.isMarked op = false)
      (uncommented : "//".toList.isPrefixOf op = false) (notOpener : op ≠ Macro.opener)
      (notCloser : op :: args ≠ [Macro.closer]) : Instructs {} op args :=
    ⟨rfl, rfl, unlabelled, uncommented, notOpener, notCloser⟩
  obtain ⟨accepted, put, -⟩ := instruction_lines_follow_grammar
    (plain _ _ (by decide) (by decide) (by decide) (by decide)) branch 64 7
  obtain ⟨-, -, refused, -⟩ := instruction_lines_follow_grammar
    (plain _ _ (by decide) (by decide) (by decide) (by decide)) sum 64 7
  have v0 : Register.v0.NamedBy "v0".toList := by unfold Register.NamedBy; decide
  have ze : Register.ze.NamedBy "ze".toList := by unfold Register.NamedBy; decide
  have nameless : Register.ofName? "loop".toList = none := by decide
  have wellFormed : WellFormed "bolt".toList (["v0", "ze", "loop"].map String.toList) :=
    ⟨.branchOnLessThan, .mnemonic (by decide) (by decide),
      .cons (.register v0) (.cons (.register ze)
        (.cons (.label (Register.ofName?_eq_none_iff.1 nameless) (by decide)) .nil))⟩
  obtain ⟨d, -, -, state⟩ := put wellFormed
  refine ⟨accepted.2 wellFormed, ?_, (refused _).2 ⟨rfl, ?_⟩⟩
  · rw [show (take " BOLT v0 ZE Loop ").state = _ from state]
    simp
  · have named : Opcode.addI.NamedBy "addi".toList := .mnemonic (by decide) (by decide)
    exact .operands named (.later (.register v0) (.here (.malformed
      (Numeral.read_eq_malformed_iff.1 (by decide)))))

end Assembler

end RegisterMachine
