import Mathlib.Data.List.Forall2
import RegisterMachine.Proofs.Assembly.Backpatch
import RegisterMachine.Proofs.Assembly.Items
/-! Assembly in one pass gives what two passes give: labels bound and slots completed on the way
are at each moment as if every statement so far were read with all the labels so far at hand. -/
namespace RegisterMachine

namespace Outcome
variable {ε σ τ α β : Type}

theorem andThen_of_ok {o : Outcome ε σ α} {a : α} (h : o.result = .ok a)
    (next : α → σ → Outcome ε σ β) :
    (o.andThen next).result = (next a o.state).result ∧
      (o.andThen next).state = (next a o.state).state := by
  simp [andThen, after, h]

theorem ok_of_andThen {o : Outcome ε σ α} {next : α → σ → Outcome ε σ β} {b : β}
    (h : (o.andThen next).result = .ok b) : ∃ a, o.result = .ok a := by
  cases hr : o.result with
  | error e => simp [andThen, hr] at h
  | ok a => exact ⟨a, rfl⟩

end Outcome

theorem Opcode.ne_invalid_of_ofMnemonic? {t : Token} {op : Opcode}
    (h : Opcode.ofMnemonic? t = some op) : op ≠ .invalid := by
  unfold Opcode.ofMnemonic? at h
  rcases Option.or_eq_some_iff.1 h with h | ⟨-, h⟩
  · simpa using (List.mem_filter.1 (List.mem_of_find?_eq_some h)).2
  · obtain ⟨a, ha, rfl⟩ := Option.map_eq_some_iff.1 h
    have : a = ("load", .loadI) := by simpa [Opcode.aliases] using List.mem_of_find?_eq_some ha
    simp [this]

theorem Label.eq_dropLast_of_read {t label : Token} (hm : Label.isMarked t = true)
    (h : Label.read t = .ok label) : label = t.dropLast := by
  simp only [Label.read, hm, if_true] at h
  split at h <;> simp_all

/-- A slot holds a statement read with the labels that have an index. -/
def Holds (index : Token → Option Nat) (st : Statement) (slot : Slot) : Prop :=
  slot.line = st.line ∧ st.op ≠ .invalid ∧
    ∃ d, st.op.form.read (fun _ => none) st.operands = .ok d ∧ slot.draft = d.settle index

theorem Holds.fill {index index' : Token → Option Nat} {st : Statement} {slot : Slot}
    (h : Holds index st slot) {label : Token} {k : Nat}
    (hi : ∀ l, index' l = (index l).or (if label = l then some k else none)) :
    Holds index' st (slot.fill label k) := by
  obtain ⟨line, draft⟩ := slot
  obtain ⟨hline, hop, d, hd, rfl⟩ := h
  have hline' : (Slot.fill label k ⟨line, d.settle index⟩).line = st.line := by
    rw [← hline]
    unfold Slot.fill
    split <;> rfl
  refine ⟨hline', hop, d, hd, ?_⟩
  cases d with
  | complete i => rfl
  | waiting b l =>
    cases hil : index l with
    | some j => simp [Slot.fill, Draft.settle, Draft.label?, hi, hil]
    | none =>
      by_cases hll : label = l
      · simp [Slot.fill, Draft.settle, Draft.label?, Draft.resolve, hi, hil, hll]
      · simp [Slot.fill, Draft.settle, Draft.label?, hi, hil, hll, Ne.symm hll]

/-- The assembler is where two passes over the items so far would be. -/
structure Agrees (s : Scan) (asm : Assembler) : Prop where
  macros : asm.macros = s.macros
  bound : ∀ l, asm.bound? l = definition? l s.items
  bookkept : asm.Bookkept
  slots : List.Forall₂ (Holds fun l => definition? l s.items) (statements s.items) asm.slots.toList

namespace Agrees
variable {s : Scan} {asm : Assembler}

theorem size (h : Agrees s asm) : asm.slots.size = (statements s.items).length := by
  rw [h.slots.length_eq, Array.length_toList]

theorem emit (h : Agrees s asm) {op : Opcode} (hop : op ≠ .invalid) {operands : List Token}
    {draft : Draft} (hr : op.form.read asm.bound? operands = .ok draft) (nr : Nat) :
    Agrees (s.add (.statement ⟨nr, op, operands⟩)) (asm.emit draft nr).state := by
  have hindex : (fun l => definition? l (s.items ++ [.statement ⟨nr, op, operands⟩])) =
      fun l => definition? l s.items := by
    funext l
    exact definition?_append_statement l s.items _
  have hbound : asm.bound? = fun l => definition? l s.items := funext h.bound
  rw [Form.read_settle, hbound] at hr
  cases hd : op.form.read (fun _ => none) operands with
  | error p => simp [hd, Functor.map, Except.map] at hr
  | ok d =>
    have hr : d.settle (fun l => definition? l s.items) = draft := by
      simpa [hd, Functor.map, Except.map] using hr
    refine ⟨?_, fun l => ?_, Assembler.emit_bookkept h.bookkept draft nr, ?_⟩
    · rw [Assembler.emit_state]
      exact h.macros
    · rw [Assembler.emit_state, Scan.add, definition?_append_statement]
      exact h.bound l
    · rw [Assembler.emit_state, Scan.add, hindex, statements_append]
      simp only [Array.toList_push]
      exact List.rel_append h.slots (.cons ⟨rfl, hop, d, hd, hr.symm⟩ .nil)

theorem bind (h : Agrees s asm) (label : Token) (nr : Nat) :
    Agrees (s.add (.label label)) (asm.bind label nr).state := by
  have hindex (l : Token) : definition? l (s.items ++ [.label label]) =
      (definition? l s.items).or (if label = l then some (statements s.items).length else none) :=
    definition?_append_label l label s.items
  cases hl : asm.bound? label with
  | some k =>
    -- the first definition counts: this one changes nothing
    have hsame (l : Token) : definition? l (s.items ++ [.label label]) = definition? l s.items := by
      rw [hindex]
      by_cases hll : label = l
      · rw [← hll, ← h.bound, hl]
        rfl
      · simp [hll]
    rw [Assembler.bind_bound hl]
    refine ⟨h.macros, fun l => by rw [h.bound]; exact (hsame l).symm, h.bookkept, ?_⟩
    simp only [Scan.add, hsame, statements_append, statements, List.append_nil]
    exact h.slots
  | none =>
    refine ⟨?_, fun l => ?_, Assembler.bind_bookkept h.bookkept label nr, ?_⟩
    · rw [Assembler.bind_unbound h.bookkept hl]
      exact h.macros
    · rw [Assembler.bind_unbound h.bookkept hl, Scan.add, hindex, ← h.bound, ← h.size]
      simp only [Assembler.bound?, List.lookup_cons] at hl ⊢
      by_cases hll : label = l
      · subst hll
        simp [hl]
      · simp [hll, beq_eq_false_iff_ne.2 (Ne.symm hll)]
    · rw [Assembler.bind_unbound h.bookkept hl]
      simp only [Scan.add, statements_append, statements, List.append_nil, Array.toList_map]
      rw [List.forall₂_map_right_iff]
      refine h.slots.imp fun st slot hst => ?_
      rw [h.size]
      exact hst.fill hindex

def Expands (scan : List Line → Nat → Scan → Scan) (expand : Assembler.Expansion) : Prop :=
  ∀ (m : Macro) (body : List Line) (nr : Nat) {s : Scan} {asm : Assembler}, Agrees s asm →
    (expand m body nr asm).result = .ok () → Agrees (scan body nr s) (expand m body nr asm).state

theorem takeInstruction (h : Agrees s asm) {op : Token} {operands : List Token} {nr : Nat}
    (ok : (asm.takeInstruction op operands nr).result = .ok ()) :
    ∃ opcode, Opcode.ofMnemonic? op = some opcode ∧
      Agrees (s.add (.statement ⟨nr, opcode, operands⟩))
        (asm.takeInstruction op operands nr).state := by
  unfold Assembler.takeInstruction at ok ⊢
  cases hop : Opcode.ofMnemonic? op with
  | none => simp [hop, Outcome.fail] at ok
  | some opcode =>
    cases hr : opcode.form.read asm.bound? operands with
    | error p => simp [hop, hr, Outcome.fail, Outcome.after] at ok
    | ok draft =>
      simp only [hr]
      exact ⟨opcode, rfl, h.emit (Opcode.ne_invalid_of_ofMnemonic? hop) hr nr⟩

variable {scan : List Line → Nat → Scan → Scan} {expand : Assembler.Expansion} {nr : Nat}

theorem takeOperation (he : Expands scan expand) (h : Agrees s asm) {tokens : List Token}
    (ok : (asm.takeOperation expand tokens nr).result = .ok ()) :
    Agrees (s.operation scan tokens nr) (asm.takeOperation expand tokens nr).state := by
  cases tokens with
  | nil => exact h.emit (by decide) rfl nr
  | cons op args =>
    unfold Assembler.takeOperation Scan.operation at *
    rw [← h.macros]
    cases hm : asm.macros.find? op with
    | none =>
      simp only [hm] at ok ⊢
      obtain ⟨opcode, hop, hagree⟩ := h.takeInstruction ok
      simpa [hop] using hagree
    | some m =>
      cases hb : m.substitute args with
      | error p => simp [hm, hb, Outcome.fail] at ok
      | ok body =>
        simp only [hm, hb] at ok ⊢
        exact he m body nr h ok

theorem takeWords (he : Expands scan expand) (h : Agrees s asm) {tokens : List Token}
    (ok : (asm.takeWords expand tokens nr).result = .ok ()) :
    Agrees (s.words scan tokens nr) (asm.takeWords expand tokens nr).state := by
  cases tokens with
  | nil => exact h.takeOperation he ok
  | cons first rest =>
    unfold Assembler.takeWords Scan.words at *
    cases hm : Label.isMarked first with
    | false =>
      simp only [hm, Bool.false_eq_true, if_false] at ok ⊢
      exact h.takeOperation he ok
    | true =>
      cases hl : Label.read first with
      | error p => simp [hm, hl, Outcome.fail] at ok
      | ok label =>
        simp only [hm, hl, if_true] at ok ⊢
        obtain ⟨hresult, hstate⟩ := Outcome.andThen_of_ok (asm.bind_result label nr)
          fun _ asm => asm.takeOperation expand rest nr
        rw [hresult] at ok
        rw [hstate, ← Label.eq_dropLast_of_read hm hl]
        exact (h.bind label nr).takeOperation he ok

theorem takeLineWith (he : Expands scan expand) (h : Agrees s asm) {line : Line}
    (ok : (asm.takeLineWith expand line nr).result = .ok ()) :
    Agrees (s.lineWith scan line nr) (asm.takeLineWith expand line nr).state := by
  unfold Assembler.takeLineWith Assembler.takeTrimmed at ok ⊢
  unfold Scan.lineWith
  simp only [← h.macros]
  -- the two sides tell the kinds of lines by the same tests
  split
  · exact h
  · rename_i hskip
    rw [if_neg hskip] at ok
    split
    · exact ⟨rfl, h.bound, h.bookkept, h.slots⟩
    · rename_i hopen
      rw [if_neg hopen] at ok
      split
      · exact ⟨rfl, h.bound, h.bookkept, h.slots⟩
      · rename_i hclose
        rw [if_neg hclose] at ok
        split
        · exact ⟨rfl, h.bound, h.bookkept, h.slots⟩
        · rename_i hbody
          rw [if_neg hbody] at ok
          exact h.takeWords he ok

theorem takeAll {take : Line → Assembler → Assembler.Taking} {scanLine : Line → Scan → Scan}
    (step : ∀ (line : Line) {s : Scan} {asm : Assembler}, Agrees s asm →
      (take line asm).result = .ok () → Agrees (scanLine line s) (take line asm).state)
    (lines : List Line) (h : Agrees s asm)
    (ok : (Assembler.takeAll take lines asm).result = .ok ()) :
    Agrees (lines.foldl (fun s line => scanLine line s) s)
      (Assembler.takeAll take lines asm).state := by
  induction lines generalizing s asm with
  | nil => exact h
  | cons line rest ih =>
    unfold Assembler.takeAll at ok ⊢
    obtain ⟨⟨⟩, hline⟩ := Outcome.ok_of_andThen ok
    obtain ⟨hresult, hstate⟩ := Outcome.andThen_of_ok hline fun _ asm =>
      Assembler.takeAll take rest asm
    rw [hresult] at ok
    rw [hstate]
    exact ih (step line h hline) ok

theorem takeLine (depth : Nat) (line : Line) (h : Agrees s asm)
    (ok : (asm.takeLine depth line nr).result = .ok ()) :
    Agrees (s.line depth line nr) (asm.takeLine depth line nr).state := by
  induction depth generalizing line nr s asm with
  | zero => exact h.takeLineWith (fun m body nr s asm _ ok => by simp [Outcome.fail] at ok) ok
  | succ depth ih =>
    refine h.takeLineWith (fun m body nr s asm hs ok => ?_) ok
    exact takeAll (fun line s asm hs ok => ih line hs ok) body hs ok

end Agrees

end RegisterMachine
