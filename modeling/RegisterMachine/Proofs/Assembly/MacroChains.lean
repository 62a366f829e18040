import RegisterMachine.Proofs.Assembly.MacroCalls
/-! Chains of macros, each of which invokes the one before. As many links are taken as the assembler
lets invocations nest, and not one more. -/
namespace RegisterMachine

namespace MacroChain
open Assembler (takeNumbered_append)

/-- The end of a chain is an exit; the macros on the way there are named in unary. -/
def link : Nat → Token
  | 0 => "exit".toList
  | k + 1 => List.replicate (k + 1) 'x'

def macroTo (k : Nat) : Macro := ⟨link (k + 1), [], [link k]⟩

def header (k : Nat) : Line := Macro.opener ++ ' ' :: link (k + 1)

def definitions : Nat → List Line
  | 0 => []
  | k + 1 => definitions k ++ [header k, link k, Macro.closer]

/-- A text with a chain of `n` macros and one line that invokes the last of them. -/
def source (n : Nat) : String := String.ofList (['\n'].intercalate (definitions n ++ [link n]))

def macros : Nat → List Macro
  | 0 => []
  | k + 1 => macroTo k :: macros k

def defined (n : Nat) : Assembler := { macros := { defined := macros n } }

variable {k n : Nat}

/-! ### The links as words -/

theorem link_succ (k : Nat) : link (k + 1) = 'x' :: List.replicate k 'x' := rfl

theorem link_plain (k : Nat) : Text.Plain (link k) := by
  cases k with
  | zero => exact ⟨by decide, List.all_eq_true.1 (by decide)⟩
  | succ k =>
    refine ⟨List.cons_ne_nil _ _, fun c hc => ?_⟩
    rw [List.eq_of_mem_replicate hc]
    decide

theorem lower_link (k : Nat) : Text.lower (link k) = link k := by
  rw [Text.lower_of_ascii fun c hc => Text.plain_toNat_lt ((link_plain k).2 c hc)]
  cases k with
  | zero => decide
  | succ k => exact List.map_replicate

theorem words_link (k : Nat) : Text.words (link k) = [link k] :=
  Text.words_of_isToken
    ⟨(link_plain k).1, fun c hc => Text.not_isBlank_of_isPlain ((link_plain k).2 c hc)⟩

theorem trim_link (k : Nat) : Text.trim (link k) = link k := by
  have alone : Text.joined [link k] = link k := List.intercalate_singleton
  have trimmed := Text.trim_joined (List.forall_mem_singleton.2 (link_plain k))
  rwa [alone] at trimmed

theorem tokens_link (k : Nat) : Text.tokens (link k) = [link k] := by
  rw [Text.tokens, lower_link, words_link]

theorem tokens_header (k : Nat) : Text.tokens (header k) = [Macro.opener, link (k + 1)] := by
  rw [header, Text.tokens, Text.lower_append_cons (by decide), lower_link,
    Text.words_append_cons (by decide), words_link]
  rfl

theorem not_mem_link {c : Char} (special : Text.isPlain c = false) (k : Nat) : c ∉ link k := by
  intro inside
  simp [(link_plain k).2 c inside] at special

theorem not_comment (k : Nat) : ¬"//".toList <+: link k := fun comment =>
  not_mem_link (by decide : Text.isPlain '/' = false) k (comment.subset (by decide))

theorem unmarked (k : Nat) : (link k).head? ≠ some '#' := fun marked =>
  not_mem_link (by decide) k (List.mem_of_head? marked)

theorem link_injective : Function.Injective link := by
  intro k n same
  cases k with
  | zero =>
    cases n with
    | zero => rfl
    | succ n => cases congrArg List.head? same
  | succ k =>
    cases n with
    | zero => cases congrArg List.head? same
    | succ n => simpa [link] using congrArg List.length same

/-! ### The definitions -/

theorem nameable (k : Nat) : Macro.Nameable (link (k + 1)) := by
  -- no name of the language starts with the letter
  have other (name : String) (h : (name.toList.map Char.toLower).head? ≠ some 'x') :
      Text.sameName name.toList (link (k + 1)) = false := by
    refine beq_eq_false_iff_ne.2 fun same => h ?_
    rw [same, link_succ]
    rfl
  exact {
    dollar := by simp [link_succ]
    marker := unmarked (k + 1)
    colon := fun marked => not_mem_link (by decide) (k + 1) (List.mem_of_getLast? marked)
    mnemonic := fun op _ => other _ (by cases op <;> decide)
    spelling := fun a ha => other _ (by revert a; decide)
    register := fun r => other _ (by cases r <;> decide) }

theorem mem_macros {m : Macro} : m ∈ macros n ↔ ∃ k < n, m = macroTo k := by
  induction n with
  | zero => simp [macros]
  | succ n ih =>
    rw [macros, List.mem_cons, ih]
    constructor
    · rintro (rfl | ⟨k, inside, rfl⟩)
      · exact ⟨n, by omega, rfl⟩
      · exact ⟨k, by omega, rfl⟩
    · rintro ⟨k, inside, rfl⟩
      rcases Nat.lt_succ_iff_lt_or_eq.1 inside with before | rfl
      · exact .inr ⟨k, before, rfl⟩
      · exact .inl rfl

theorem ne_of_mem_macros (outside : ∀ j < n, j + 1 ≠ k) : ∀ m ∈ macros n, m.name ≠ link k := by
  intro m hm
  obtain ⟨j, inside, rfl⟩ := mem_macros.1 hm
  exact link_injective.ne (outside j inside)

theorem find?_link (inside : k < n) :
    (defined n).macros.find? (link (k + 1)) = some (macroTo k) := by
  have present : ((macros n).find? fun m => m.name == link (k + 1)).isSome = true :=
    List.find?_isSome.2 ⟨macroTo k, mem_macros.2 ⟨k, inside, rfl⟩, beq_self_eq_true _⟩
  obtain ⟨m, found⟩ := Option.isSome_iff_exists.1 present
  obtain ⟨j, -, rfl⟩ := mem_macros.1 (List.mem_of_find?_eq_some found)
  have same : (macroTo j).name = link (k + 1) := by simpa using List.find?_some found
  rw [Nat.succ_injective (link_injective same)] at found
  exact found

theorem find?_exit (n : Nat) : (defined n).macros.find? (link 0) = none :=
  MacroTable.find?_eq_none_iff.2 (ne_of_mem_macros fun j _ => j.succ_ne_zero)

theorem takeNumbered_definition (n nr : Nat) : ∃ events,
    (defined n).takeNumbered nr [header n, link n, Macro.closer] =
      .ok () (defined (n + 1)) events := by
  let t : MacroTable := { defined := macros n }
  let cleaned : Line := Text.lower (Text.trim (header n))
  have cut : Text.words cleaned = [Macro.opener, link (n + 1)] :=
    (Text.words_taken _).trans (tokens_header n)
  have free : t.Admits (link (n + 1)) :=
    ⟨nameable n, ne_of_mem_macros fun j inside same => by omega⟩
  have read : t.readHeader cleaned = .ok (link (n + 1), []) :=
    (MacroTable.readHeader_eq_ok_iff rfl cut).2 ⟨rfl, free, .nil⟩
  let opened : Assembler := { macros := { t with opened := some ⟨link (n + 1), [], nr⟩ } }
  let filled : Assembler := { macros := opened.macros.add (link n) }
  have opens : (defined n).takeLine maxMacroDepth (header n) nr =
      .ok () opened [.macroOpened nr (link (n + 1)) 0] := by
    have kept : Assembler.isSkipped cleaned = false :=
      Assembler.isSkipped_of_tokens (tokens_header n)
    have opener : Macro.isOpener cleaned = true := by rw [Macro.isOpener, cut]; rfl
    show (defined n).takeTrimmed _ cleaned nr = _
    rw [Assembler.takeTrimmed, kept, opener, if_neg Bool.false_ne_true, if_pos rfl]
    show (t.begin cleaned nr).mapState _ = _
    rw [MacroTable.begin, read]
    rfl
  have records : opened.takeLine maxMacroDepth (link n) (nr + 1) = .ok () filled := by
    have added := Assembler.takeLineWith_of_body (tokens_link n) (not_comment n) (unmarked n)
      (show opened.macros.opened = _ from rfl)
    rw [trim_link, lower_link] at added
    exact added _ _
  have closes : filled.takeLine maxMacroDepth Macro.closer (nr + 1 + 1) =
      .ok () (defined (n + 1)) := rfl
  refine ⟨[.macroOpened nr (link (n + 1)) 0], ?_⟩
  simp [Assembler.takeNumbered, opens, records, closes, Outcome.after, Outcome.ok, Outcome.andThen]

theorem length_definitions (n : Nat) : (definitions n).length = 3 * n := by
  induction n with
  | zero => rfl
  | succ n ih =>
    rw [definitions, List.length_append, ih]
    rfl

theorem takeNumbered_definitions (n : Nat) : ∃ events,
    ({} : Assembler).takeNumbered 1 (definitions n) = .ok () (defined n) events := by
  induction n with
  | zero => exact ⟨[], rfl⟩
  | succ n ih =>
    obtain ⟨before, taken⟩ := ih
    obtain ⟨own, more⟩ := takeNumbered_definition n (1 + (definitions n).length)
    refine ⟨before ++ own, ?_⟩
    rw [definitions, takeNumbered_append, taken, Outcome.ok_andThen, more]
    rfl

/-! ### The chain -/

def finished (n nr : Nat) : Assembler := { defined n with slots := #[⟨nr, .complete .exit⟩] }

theorem takeLine_exit (n depth nr : Nat) : (defined n).takeLine depth (link 0) nr =
    .ok () (finished n nr) [.instructionFound nr .exit] := by
  have operation : ∀ expand, (defined n).takeWords expand [link 0] nr =
      .ok () (finished n nr) [.instructionFound nr .exit] := by
    intro expand
    show (defined n).takeOperation expand [link 0] nr = _
    rw [Assembler.takeOperation, find?_exit]
    rfl
  have code := Assembler.takeLineWith_of_code (tokens_link 0) (not_comment 0) (unmarked 0)
    (show (defined n).macros.opened = none from rfl)
  cases depth <;> exact (code _ _).trans (operation _)

theorem invokes_link (inside : k < n) (nr : Nat) :
    (defined n).Invokes (link (k + 1)) nr (macroTo k) [] :=
  Assembler.invokes_of_plain rfl (find?_link inside) (nameable k) (tokens_link (k + 1))
    (not_comment (k + 1)) nr

theorem takeLine_succ (inside : k < n) (depth nr : Nat) :
    (defined n).takeLine (depth + 1) (link (k + 1)) nr =
      ((defined n).takeLine depth (link k) nr).after [.macroExpanded nr (link (k + 1))] := by
  obtain ⟨body, filled, expands, -⟩ := (invokes_link inside nr).expands rfl
  obtain rfl : [link k] = body := Except.ok.inj filled
  rw [expands, Assembler.takeAll]
  exact congrArg (Outcome.after _) (Outcome.andThen_ok _)

theorem takeLine_zero (inside : k < n) (nr : Nat) : (defined n).takeLine 0 (link (k + 1)) nr =
    .fail ⟨nr, .tooDeep (link (k + 1))⟩ (defined n) := by
  obtain ⟨body, -, -, refused⟩ := (invokes_link inside nr).expands rfl
  exact refused

theorem takeLine_of_le {depth : Nat} (fits : k ≤ depth) (inside : k ≤ n) (nr : Nat) : ∃ events,
    (defined n).takeLine depth (link k) nr = .ok () (finished n nr) events := by
  induction k generalizing depth with
  | zero => exact ⟨_, takeLine_exit n depth nr⟩
  | succ k ih =>
    obtain ⟨left, rfl⟩ := Nat.exists_eq_succ_of_ne_zero (show depth ≠ 0 by omega)
    have shorter : k ≤ left := by omega
    obtain ⟨events, taken⟩ := ih shorter (by omega)
    rw [takeLine_succ (by omega), taken]
    exact ⟨_, rfl⟩

theorem takeLine_of_lt {depth : Nat} (deep : depth < k) (inside : k ≤ n) (nr : Nat) : ∃ events,
    (defined n).takeLine depth (link k) nr =
      .fail ⟨nr, .tooDeep (link (k - depth))⟩ (defined n) events := by
  obtain ⟨k, rfl⟩ := Nat.exists_eq_succ_of_ne_zero (show k ≠ 0 by omega)
  induction depth generalizing k with
  | zero => exact ⟨[], takeLine_zero (by omega) nr⟩
  | succ depth ih =>
    obtain ⟨j, rfl⟩ := Nat.exists_eq_succ_of_ne_zero (show k ≠ 0 by omega)
    obtain ⟨events, refused⟩ := ih j (by omega) (by omega)
    rw [takeLine_succ (by omega), refused, Nat.succ_sub_succ]
    exact ⟨_, rfl⟩

/-! ### The text -/

theorem newline_not_mem_link (k : Nat) : '\n' ∉ link k := not_mem_link (by decide) k

theorem newline_not_mem_definitions (n : Nat) : ∀ line ∈ definitions n, '\n' ∉ line := by
  induction n with
  | zero => exact nofun
  | succ n ih =>
    have clean : '\n' ∉ header n := by
      rw [header, List.mem_append, List.mem_cons]
      exact not_or.2 ⟨by decide, not_or.2 ⟨by decide, newline_not_mem_link (n + 1)⟩⟩
    refine List.forall_mem_append.2 ⟨ih, ?_⟩
    simpa [clean, newline_not_mem_link] using (by decide : '\n' ∉ Macro.closer)

theorem lines_source (n : Nat) :
    Text.lines (source n).toList = definitions n ++ [link n] := by
  have clean : ∀ line ∈ definitions n ++ [link n], '\n' ∉ line :=
    List.forall_mem_append.2 ⟨newline_not_mem_definitions n, by simpa using newline_not_mem_link n⟩
  rw [source, String.toList_ofList]
  exact Text.lines_intercalate (by simp) clean

/-- A chain of as many macros as invocations may nest is assembled; a longer one is refused at the
line that invokes it, for the first macro that is too deep. -/
theorem assemble_source (n : Nat) :
    (Assembler.assemble (source n) {}).result =
      if n ≤ 64 then .ok (.ofArray #[.exit]) else .error ⟨3 * n + 1, .tooDeep (link (n - 64))⟩ := by
  obtain ⟨events, opened⟩ := takeNumbered_definitions n
  rw [Unrolling.assemble_eq_conclude, lines_source]
  show (Unrolling.conclude (({} : Assembler).takeNumbered 1 (definitions n ++ [link n]))).result = _
  rw [takeNumbered_append, opened, Outcome.ok_andThen, length_definitions, Nat.add_comm 1]
  split
  · rename_i fits
    have fits : n ≤ maxMacroDepth := fits
    obtain ⟨more, taken⟩ := takeLine_of_le fits (Nat.le_refl n) (3 * n + 1)
    rw [Assembler.takeNumbered, taken]
    rfl
  · rename_i deep
    have deep : maxMacroDepth < n := Nat.lt_of_not_le deep
    obtain ⟨more, refused⟩ := takeLine_of_lt deep (Nat.le_refl n) (3 * n + 1)
    rw [Assembler.takeNumbered, refused]
    rfl

end MacroChain

end RegisterMachine
