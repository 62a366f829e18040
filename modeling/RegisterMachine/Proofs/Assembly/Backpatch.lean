import RegisterMachine.Assembly.Assembler
import RegisterMachine.Proofs.Assembly.Operands
/-! The account of slots that wait for labels: a label that gets its index completes exactly the
slots that wait for it, and they leave the account. -/
namespace RegisterMachine

def Slot.fill (label : Token) (index : Nat) (s : Slot) : Slot :=
  if s.draft.label? = some label then { s with draft := s.draft.resolve index } else s

def waiting (slots : List Slot) : List (Token × Nat) :=
  slots.zipIdx.filterMap fun p => p.1.draft.label?.map fun l => (l, p.2)

theorem mem_waiting_iff {slots : List Slot} {label : Token} {k : Nat} :
    (label, k) ∈ waiting slots ↔ ∃ s, slots[k]? = some s ∧ s.draft.label? = some label := by
  simp only [waiting, List.mem_filterMap, Option.map_eq_some_iff, Prod.exists, Prod.mk.injEq]
  constructor
  · intro h
    obtain ⟨s, i, hs, l, hl, rfl, rfl⟩ := h
    exact ⟨s, List.mem_zipIdx_iff_getElem?.1 hs, hl⟩
  · intro h
    obtain ⟨s, hs, hl⟩ := h
    exact ⟨s, k, List.mem_zipIdx_iff_getElem?.2 hs, label, hl, rfl, rfl⟩

theorem waiting_append (slots : List Slot) (s : Slot) :
    waiting (slots ++ [s]) =
      waiting slots ++ (s.draft.label?.map fun l => (l, slots.length)).toList := by
  cases h : s.draft.label? <;> simp [waiting, List.zipIdx_append, h]

theorem waiting_map_fill (slots : List Slot) (label : Token) (index : Nat) :
    waiting (slots.map (Slot.fill label index)) = (waiting slots).filter fun p => p.1 != label := by
  simp only [waiting, List.zipIdx_map, List.filterMap_map, List.filter_filterMap]
  congr 1
  funext ⟨⟨line, draft⟩, k⟩
  cases draft with
  | complete i => rfl
  | waiting b l =>
    by_cases h : l = label <;>
      simp [Slot.fill, Draft.label?, Draft.resolve, Option.filter, h]

theorem getElem?_foldl_modify {α : Type} {f : α → α} (hf : ∀ x, f (f x) = f x) (ks : List Nat)
    (a : Array α) (i : Nat) :
    (ks.foldl (fun a k => a.modify k f) a)[i]? = if i ∈ ks then a[i]?.map f else a[i]? := by
  induction ks generalizing a with
  | nil => simp
  | cons k rest ih =>
    rw [List.foldl_cons, ih, Array.getElem?_modify]
    by_cases hk : k = i
    · subst hk
      cases a[k]? <;> by_cases hr : k ∈ rest <;> simp [hr, hf]
    · by_cases hr : i ∈ rest <;> simp [hk, hr, Ne.symm hk]

theorem size_foldl_modify {α : Type} (f : α → α) (ks : List Nat) (a : Array α) :
    (ks.foldl (fun a k => a.modify k f) a).size = a.size := by
  induction ks generalizing a with
  | nil => rfl
  | cons k rest ih => rw [List.foldl_cons, ih, Array.size_modify]

theorem Draft.resolve_resolve (index : Nat) (d : Draft) :
    (d.resolve index).resolve index = d.resolve index := by
  cases d <;> rfl

namespace Assembler

def Bookkept (asm : Assembler) : Prop := asm.pending.toList = waiting asm.slots.toList

theorem mem_waitingFor_iff {asm : Assembler} (h : asm.Bookkept) {label : Token} {k : Nat} :
    k ∈ asm.waitingFor label ↔ ∃ s, asm.slots[k]? = some s ∧ s.draft.label? = some label := by
  rw [← Array.getElem?_toList, ← mem_waiting_iff, ← h]
  simp [waitingFor]

/-- Completing the slots in the account of a label completes exactly those that wait for it. -/
theorem fill_waitingFor {asm : Assembler} (h : asm.Bookkept) (label : Token) (index : Nat) :
    (asm.waitingFor label).foldl
      (fun slots k => slots.modify k fun s => { s with draft := s.draft.resolve index }) asm.slots =
        asm.slots.map (Slot.fill label index) := by
  apply Array.ext_getElem?
  intro i
  rw [getElem?_foldl_modify (by simp [Draft.resolve_resolve]), Array.getElem?_map]
  cases hs : asm.slots[i]? with
  | none => simp
  | some s =>
    have hi : i ∈ asm.waitingFor label ↔ s.draft.label? = some label := by
      simp [mem_waitingFor_iff h, hs]
    by_cases hl : s.draft.label? = some label <;> simp [hi, hl, Slot.fill]

theorem bind_bound {asm : Assembler} {label : Token} {k : Nat} (h : asm.bound? label = some k)
    (nr : Nat) : (asm.bind label nr).state = asm := by
  simp [bind, h, Outcome.ok]

theorem bind_unbound {asm : Assembler} (h : asm.Bookkept) {label : Token}
    (hl : asm.bound? label = none) (nr : Nat) :
    (asm.bind label nr).state =
      { asm with
        labels := (label, asm.slots.size) :: asm.labels
        pending := asm.pending.filter fun p => p.1 != label
        slots := asm.slots.map (Slot.fill label asm.slots.size) } := by
  simp [bind, hl, Outcome.ok, fill_waitingFor h]

theorem bind_result (asm : Assembler) (label : Token) (nr : Nat) :
    (asm.bind label nr).result = .ok () := by
  unfold bind
  split <;> rfl

theorem bind_bookkept {asm : Assembler} (h : asm.Bookkept) (label : Token) (nr : Nat) :
    (asm.bind label nr).state.Bookkept := by
  cases hl : asm.bound? label with
  | some k => rwa [bind_bound hl]
  | none =>
    rw [bind_unbound h hl]
    unfold Bookkept at h ⊢
    simp [waiting_map_fill, h]

theorem emit_state (asm : Assembler) (draft : Draft) (nr : Nat) :
    (asm.emit draft nr).state =
      { asm with
        pending := asm.pending ++ (draft.label?.map fun l => (l, asm.slots.size)).toList.toArray
        slots := asm.slots.push ⟨nr, draft⟩ } := by
  cases draft <;> simp [emit, Outcome.ok, Draft.label?]

theorem emit_bookkept {asm : Assembler} (h : asm.Bookkept) (draft : Draft) (nr : Nat) :
    (asm.emit draft nr).state.Bookkept := by
  rw [emit_state]
  unfold Bookkept at h ⊢
  simp [waiting_append, h]

end Assembler

end RegisterMachine
