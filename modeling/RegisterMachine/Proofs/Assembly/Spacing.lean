import RegisterMachine.Proofs.Assembly.Invocation
import RegisterMachine.Proofs.Text.Tokens
/-! Lines in other letter case and with other blank space. An assembler keeps lines of macro bodies
as they are spaced, and replaces placeholders in them as text; still, all that comes of a source is
decided by the tokens of its lines. -/
namespace RegisterMachine
open Text (IsToken words)

namespace Macro

def cut (m : Macro) : Token × List Token × List (List Token) := (m.name, m.params, m.body.map words)

theorem words_fill {bindings : List (Token × Token)}
    (proper : ∀ b ∈ bindings, IsToken b.1 ∧ IsToken b.2) (line : Line) :
    words (fill bindings line) = (words line).map (fill bindings) := by
  induction bindings with
  | nil => exact (List.map_id _).symm
  | cons b rest ih =>
    obtain ⟨hb, hrest⟩ := List.forall_mem_cons.1 proper
    calc words (Text.replace b.1 b.2 (fill rest line))
        = (words (fill rest line)).map (Text.replace b.1 b.2) := Text.words_replace hb.1 hb.2 _
      _ = ((words line).map (fill rest)).map (Text.replace b.1 b.2) := by rw [ih hrest]
      _ = (words line).map (fill (b :: rest)) := by rw [List.map_map]; rfl

theorem substitute_of_cut {m m' : Macro} (same : m.cut = m'.cut)
    (params : ∀ p ∈ m.params, IsToken p) {args : List Token} (hargs : ∀ a ∈ args, IsToken a) :
    (∃ p, m.substitute args = .error p ∧ m'.substitute args = .error p) ∨
      ∃ body body', m.substitute args = .ok body ∧ m'.substitute args = .ok body' ∧
        body.map words = body'.map words := by
  obtain ⟨name, ps, body⟩ := m
  obtain ⟨name', ps', body'⟩ := m'
  simp only [cut, Prod.mk.injEq] at same
  obtain ⟨rfl, rfl, same⟩ := same
  unfold substitute
  dsimp only at params ⊢
  split
  · refine .inr ⟨_, _, rfl, rfl, ?_⟩
    have proper : ∀ b ∈ ps.zip args, IsToken b.1 ∧ IsToken b.2 := fun b hb =>
      ⟨params _ (List.of_mem_zip hb).1, hargs _ (List.of_mem_zip hb).2⟩
    have filled (lines : List Line) : (lines.map (fill (ps.zip args))).map words =
        (lines.map words).map (List.map (fill (ps.zip args))) := by
      simp only [List.map_map, List.map_inj_left, Function.comp_apply]
      exact fun line _ => words_fill proper line
    rw [filled, filled, same]
  · exact .inl ⟨_, rfl, rfl⟩

end Macro

structure MacroTable.Respaced (s t : MacroTable) : Prop where
  buffer : s.buffer.toList.map words = t.buffer.toList.map words
  defined : s.defined.map Macro.cut = t.defined.map Macro.cut
  opened : s.opened = t.opened
  params : ∀ m ∈ s.defined, ∀ p ∈ m.params, IsToken p
  header : ∀ h ∈ s.opened, ∀ p ∈ h.params, IsToken p

theorem MacroTable.Respaced.find? {s t : MacroTable} (h : s.Respaced t) (name : Token) :
    (s.find? name).map Macro.cut = (t.find? name).map Macro.cut := by
  have cutting (u : MacroTable) :
      (u.find? name).map Macro.cut = (u.defined.map Macro.cut).find? fun c => c.1 == name := by
    rw [List.find?_map]
    rfl
  rw [cutting, cutting, h.defined]

theorem MacroTable.Respaced.readHeader {s t : MacroTable} (h : s.Respaced t) {line line' : Line}
    (same : words line = words line') : s.readHeader line = t.readHeader line' := by
  have free (name : Token) : (s.find? name).isSome = (t.find? name).isSome := by
    simpa using congrArg Option.isSome (h.find? name)
  unfold MacroTable.readHeader
  simp only [h.opened, same, free]

theorem MacroTable.mem_words_of_readHeader {t : MacroTable} {line : Line}
    {found : Token × List Token} (ok : t.readHeader line = .ok found) :
    ∀ p ∈ found.2, p ∈ words line := by
  unfold MacroTable.readHeader at ok
  cases opened : t.opened with
  | some h =>
    rw [opened] at ok
    cases ok
  | none =>
    rw [opened] at ok
    cases header : (words line).drop 1 with
    | nil =>
      rw [header] at ok
      cases ok
    | cons name params =>
      have listed : ∀ p ∈ params, p ∈ words line := fun p hp =>
        List.mem_of_mem_drop (header ▸ List.mem_cons_of_mem name hp)
      rw [header] at ok
      dsimp only [bind, Except.bind, pure, Except.pure] at ok
      cases checked : Macro.checkName name with
      | error p => simp [checked] at ok
      | ok u =>
        cases taken : (t.find? name).isSome with
        | true =>
          rw [checked, taken] at ok
          cases ok
        | false =>
          cases numbered : Macro.checkParams name 1 params with
          | error p => simp [checked, taken, numbered] at ok
          | ok u =>
            simp only [checked, taken, numbered] at ok
            cases ok
            exact listed

namespace Assembler

/-- The assemblers differ at most in the blank space of the lines that they keep. -/
structure Respaced (s t : Assembler) : Prop where
  labels : s.labels = t.labels
  macros : s.macros.Respaced t.macros
  pending : s.pending = t.pending
  slots : s.slots = t.slots

structure Agree (o o' : Taking) : Prop where
  result : o.result = o'.result
  events : o.events = o'.events
  state : o.state.Respaced o'.state

namespace Agree
variable {o o' : Taking} {s t : Assembler}

theorem ok (h : s.Respaced t) (events : List Event) : Agree (.ok () s events) (.ok () t events) :=
  ⟨rfl, rfl, h⟩

theorem fail (h : s.Respaced t) (e : ParseError) : Agree (.fail e s) (.fail e t) := ⟨rfl, rfl, h⟩

theorem after (h : Agree o o') (earlier : List Event) :
    Agree (o.after earlier) (o'.after earlier) :=
  ⟨h.result, congrArg (earlier ++ ·) h.events, h.state⟩

theorem andThen (h : Agree o o') {next next' : Unit → Assembler → Taking}
    (hn : ∀ {s t : Assembler}, s.Respaced t → Agree (next () s) (next' () t)) :
    Agree (o.andThen next) (o'.andThen next') := by
  obtain ⟨result, state, events⟩ := o
  obtain ⟨result', state', events'⟩ := o'
  obtain ⟨same, rfl, hs⟩ := h
  dsimp only at same hs
  subst same
  unfold Outcome.andThen
  cases result with
  | error e => exact ⟨rfl, rfl, hs⟩
  | ok u => exact (hn hs).after _

end Agree

/-- Work on labels and slots, which neither looks at the macros nor changes them. -/
structure LeavesMacros (work : Assembler → Taking) : Prop where
  blind (asm : Assembler) (macros : MacroTable) :
    work { asm with macros } = (work asm).mapState fun asm => { asm with macros }
  kept (asm : Assembler) : (work asm).state.macros = asm.macros

theorem LeavesMacros.agree {work : Assembler → Taking} (hw : LeavesMacros work) {s t : Assembler}
    (h : s.Respaced t) : Agree (work s) (work t) := by
  obtain ⟨labels, macros, pending, slots⟩ := h
  have other : t = { s with macros := t.macros } := by rw [labels, pending, slots]
  have same : work t = (work s).mapState fun asm => { asm with macros := t.macros } :=
    (congrArg work other).trans (hw.blind s t.macros)
  rw [same]
  refine ⟨rfl, rfl, rfl, ?_, rfl, rfl⟩
  rwa [hw.kept]

theorem bind_leavesMacros (label : Token) (nr : Nat) : LeavesMacros (bind label nr) := by
  constructor
  · intro asm macros
    have bound : { asm with macros }.bound? label = asm.bound? label := rfl
    unfold bind
    rw [bound]
    cases asm.bound? label <;> rfl
  · intro asm
    unfold bind
    cases asm.bound? label <;> rfl

theorem emit_leavesMacros (draft : Draft) (nr : Nat) : LeavesMacros (emit draft nr) :=
  ⟨fun _ _ => by cases draft <;> rfl, fun _ => by cases draft <;> rfl⟩

theorem takeInstruction_leavesMacros (op : Token) (operands : List Token) (nr : Nat) :
    LeavesMacros (takeInstruction op operands nr) := by
  constructor
  · intro asm macros
    have bound : { asm with macros }.bound? = asm.bound? := rfl
    unfold takeInstruction
    rw [bound]
    split
    · rfl
    · split
      · rfl
      · exact congrArg (Outcome.after _) ((emit_leavesMacros _ nr).blind asm macros)
  · intro asm
    unfold takeInstruction
    split
    · rfl
    · split
      · rfl
      · exact (emit_leavesMacros _ nr).kept asm

namespace Respaced
variable {s t : Assembler} (h : s.Respaced t) (nr : Nat)
include h

theorem begin {line line' : Line} (same : words line = words line') :
    Agree (s.viaMacros (MacroTable.begin line nr)) (t.viaMacros (MacroTable.begin line' nr)) := by
  have header := h.macros.readHeader same
  unfold viaMacros MacroTable.begin
  rw [← header]
  cases hs : s.macros.readHeader line with
  | error p => exact .fail h _
  | ok found =>
    have params : ∀ p ∈ found.2, IsToken p := fun p hp =>
      Text.isToken_of_mem_words (MacroTable.mem_words_of_readHeader hs p hp)
    refine ⟨rfl, rfl, h.labels, ⟨h.macros.buffer, h.macros.defined, rfl, h.macros.params, ?_⟩,
      h.pending, h.slots⟩
    rintro _ ⟨⟩
    exact params

theorem finish :
    Agree (s.viaMacros (MacroTable.finish nr)) (t.viaMacros (MacroTable.finish nr)) := by
  unfold viaMacros MacroTable.finish
  rw [← h.macros.opened]
  cases opened : s.macros.opened with
  | none => exact .fail h _
  | some header =>
    refine ⟨rfl, rfl, h.labels, ⟨rfl, ?_, rfl, ?_, by simp [Outcome.ok, Outcome.mapState]⟩,
      h.pending, h.slots⟩
    · exact List.cons_eq_cons.2 ⟨by simp only [Macro.cut, h.macros.buffer], h.macros.defined⟩
    · exact List.forall_mem_cons.2 ⟨h.macros.header header opened, h.macros.params⟩

theorem add {line line' : Line} (same : words line = words line') :
    Agree (.ok () { s with macros := s.macros.add line })
      (.ok () { t with macros := t.macros.add line' }) := by
  refine ⟨rfl, rfl, h.labels, ⟨?_, h.macros.defined, h.macros.opened, h.macros.params,
    h.macros.header⟩, h.pending, h.slots⟩
  simp only [Outcome.ok, MacroTable.add, Array.toList_push, List.map_append, h.macros.buffer,
    List.map_cons, same]

end Respaced

def Expansion.Respects (expand : Expansion) : Prop :=
  ∀ {m m' : Macro} {body body' : List Line} (nr : Nat) {s t : Assembler}, m.name = m'.name →
    body.map words = body'.map words → s.Respaced t →
    Assembler.Agree (expand m body nr s) (expand m' body' nr t)

namespace Respaced
variable {s t : Assembler} (h : s.Respaced t) {expand : Expansion} (he : expand.Respects) (nr : Nat)
include h he

theorem takeOperation {tokens : List Token} (ht : ∀ w ∈ tokens, IsToken w) :
    Agree (s.takeOperation expand tokens nr) (t.takeOperation expand tokens nr) := by
  cases tokens with
  | nil => exact (emit_leavesMacros (.complete .noop) nr).agree h
  | cons op args =>
    have found := h.macros.find? op
    unfold Assembler.takeOperation
    dsimp only
    cases hs : s.macros.find? op with
    | none =>
      cases hm : t.macros.find? op with
      | none => exact (takeInstruction_leavesMacros op args nr).agree h
      | some m' => simp [hs, hm] at found
    | some m =>
      cases hm : t.macros.find? op with
      | none => simp [hs, hm] at found
      | some m' =>
        have same : m.cut = m'.cut := by simpa [hs, hm] using found
        have params : ∀ p ∈ m.params, IsToken p := h.macros.params m (List.mem_of_find?_eq_some hs)
        obtain ⟨p, hp, hp'⟩ | ⟨body, body', hb, hb', bodies⟩ :=
          Macro.substitute_of_cut same params (List.forall_mem_cons.1 ht).2
        · simp only [hp, hp']
          exact .fail h _
        · simp only [hb, hb']
          exact he nr (congrArg Prod.fst same) bodies h

theorem takeWords {tokens : List Token} (ht : ∀ w ∈ tokens, IsToken w) :
    Agree (s.takeWords expand tokens nr) (t.takeWords expand tokens nr) := by
  cases tokens with
  | nil => exact h.takeOperation he nr ht
  | cons first rest =>
    unfold Assembler.takeWords
    dsimp only
    split
    · split
      · exact .fail h _
      · exact ((bind_leavesMacros _ nr).agree h).andThen fun h =>
          h.takeOperation he nr (List.forall_mem_cons.1 ht).2
    · exact h.takeOperation he nr ht

end Respaced

/-- What is looked for in a line once it is trimmed and in lower case is a matter of its words. -/
theorem isSkipped_eq {line : Line} (first : ∀ c ∈ line.head?, Text.isBlank c = false) :
    isSkipped line = ((words line).isEmpty || (words line).head?.any "//".toList.isPrefixOf) := by
  have slashes : IsToken "//".toList := by decide
  rw [isSkipped, Text.isEmpty_eq_words first, Text.isPrefixOf_eq_first slashes first]

theorem isCloser_eq (line : Line) : Macro.isCloser line = (words line == [Macro.closer]) := by
  have closer : IsToken Macro.closer := by decide
  rw [Macro.isCloser, Bool.eq_iff_iff, beq_iff_eq, beq_iff_eq]
  exact Text.trim_eq_iff closer

theorem Respaced.takeLineWith {s t : Assembler} (h : s.Respaced t) {expand : Expansion}
    (he : expand.Respects) (nr : Nat) {line line' : Line}
    (same : Text.tokens line = Text.tokens line') :
    Agree (s.takeLineWith expand line nr) (t.takeLineWith expand line' nr) := by
  have first := Text.head_lower (Text.head_trim line)
  have first' := Text.head_lower (Text.head_trim line')
  rw [← Text.words_taken, ← Text.words_taken] at same
  unfold Assembler.takeLineWith takeTrimmed
  simp only [isSkipped_eq first, isSkipped_eq first', isCloser_eq, Macro.isOpener, same,
    h.macros.opened]
  split
  · exact .ok h _
  split
  · exact h.begin nr same
  split
  · exact h.finish nr
  split
  · exact h.add same
  · exact h.takeWords he nr fun w hw => Text.isToken_of_mem_words hw

theorem Respaced.takeAll {s t : Assembler} (h : s.Respaced t) {take : Line → Assembler → Taking}
    (step : ∀ {line line' : Line} {s t : Assembler}, words line = words line' → s.Respaced t →
      Agree (take line s) (take line' t)) {lines lines' : List Line}
    (same : lines.map words = lines'.map words) :
    Agree (Assembler.takeAll take lines s) (Assembler.takeAll take lines' t) := by
  induction lines generalizing s t lines' with
  | nil =>
    cases lines' with
    | nil => exact .ok h _
    | cons line' rest' => cases same
  | cons line rest ih =>
    cases lines' with
    | nil => cases same
    | cons line' rest' =>
      obtain ⟨first, others⟩ := List.cons_eq_cons.1 same
      exact (step first h).andThen fun h => ih h others

theorem Respaced.takeLine {s t : Assembler} (h : s.Respaced t) (depth nr : Nat)
    {line line' : Line} (same : Text.tokens line = Text.tokens line') :
    Agree (s.takeLine depth line nr) (t.takeLine depth line' nr) := by
  induction depth generalizing s t nr line line' with
  | zero =>
    refine h.takeLineWith (fun nr s t name _ h => ?_) nr same
    rw [name]
    exact .fail h _
  | succ depth ih =>
    refine h.takeLineWith (fun nr s t name bodies h => ?_) nr same
    rw [name]
    exact (h.takeAll (fun same h => ih h nr (Text.tokens_of_words same)) bodies).after _

theorem Respaced.takeNumbered {s t : Assembler} (h : s.Respaced t) (nr : Nat)
    {lines lines' : List Line} (same : lines.map Text.tokens = lines'.map Text.tokens) :
    Agree (s.takeNumbered nr lines) (t.takeNumbered nr lines') := by
  induction lines generalizing s t nr lines' with
  | nil =>
    cases lines' with
    | nil => exact .ok h _
    | cons line' rest' => cases same
  | cons line rest ih =>
    cases lines' with
    | nil => cases same
    | cons line' rest' =>
      obtain ⟨first, others⟩ := List.cons_eq_cons.1 same
      exact (h.takeLine maxMacroDepth nr first).andThen fun h => ih h (nr + 1) others

theorem clear_respaced (asm asm' : Assembler) : asm.clear.Respaced asm'.clear :=
  ⟨rfl, ⟨rfl, rfl, rfl, by simp [clear, MacroTable.clear], by simp [clear, MacroTable.clear]⟩,
    rfl, rfl⟩

end Assembler

namespace Session

structure Respaced (s t : Session) : Prop where
  assembler : s.assembler.Respaced t.assembler
  failure : s.failure = t.failure

namespace Respaced
variable {s t : Session} (h : s.Respaced t)
include h

theorem takeLines {lines lines' : List Line}
    (same : lines.map Text.tokens = lines'.map Text.tokens) :
    (s.takeLines lines).result = (t.takeLines lines').result ∧
      (s.takeLines lines).events = (t.takeLines lines').events ∧
      (s.takeLines lines).state.Respaced (t.takeLines lines').state := by
  obtain ⟨asm, failure⟩ := s
  obtain ⟨asm', failure'⟩ := t
  obtain ⟨respaced, rfl⟩ := h
  unfold Session.takeLines
  cases failure with
  | some e => exact ⟨rfl, rfl, respaced, rfl⟩
  | none =>
    have agree : Assembler.Agree (asm.takeNumbered 1 lines) (asm'.takeNumbered 1 lines') :=
      respaced.takeNumbered 1 same
    obtain ⟨result, events, state⟩ := agree
    simp only [takeFrom_eq, ← result, ← events]
    cases (asm.takeNumbered 1 lines).result with
    | ok u => exact ⟨rfl, rfl, state, rfl⟩
    | error e => exact ⟨rfl, rfl, state, rfl⟩

theorem finish : s.finish.result = t.finish.result ∧ s.finish.events = t.finish.events ∧
    s.finish.state.labels = t.finish.state.labels := by
  have labels (u : Session) : u.finish.state.labels = u.assembler.labels := by
    rw [finish_state]
  rw [labels, labels]
  unfold Session.finish
  rw [← h.failure, ← h.assembler.macros.opened, ← h.assembler.slots]
  split
  · exact ⟨rfl, rfl, h.assembler.labels⟩
  · exact ⟨rfl, rfl, h.assembler.labels⟩
  · split <;> exact ⟨rfl, rfl, h.assembler.labels⟩

end Respaced

/-- Source lines that have the same tokens come to the same, whatever their letter case and blank
space: to one program and one table of labels, or to one error. -/
theorem tokens_decide_assembly (asm asm' : Assembler) :
    (∀ lines lines' : List Line, lines.map Text.tokens = lines'.map Text.tokens →
      let o := (start asm).takeLines lines
      let o' := (start asm').takeLines lines'
      o.result = o'.result ∧ o.events = o'.events ∧
        o.state.finish.result = o'.state.finish.result ∧
        o.state.finish.events = o'.state.finish.events ∧
        o.state.finish.state.labels = o'.state.finish.state.labels) ∧
    ∀ source source' : String,
      (Text.lines source.toList).map Text.tokens = (Text.lines source'.toList).map Text.tokens →
      (asm.assemble source).result = (asm'.assemble source').result ∧
        (asm.assemble source).events = (asm'.assemble source').events ∧
        (asm.assemble source).state.labels = (asm'.assemble source').state.labels := by
  have fresh : (start asm).Respaced (start asm') := ⟨asm.clear_respaced asm', rfl⟩
  constructor
  · intro lines lines' same o o'
    obtain ⟨result, events, state⟩ := fresh.takeLines same
    obtain ⟨ended, reported, labels⟩ := state.finish
    exact ⟨result, events, ended, reported, labels⟩
  · intro source source' same
    obtain ⟨result, events, state⟩ := fresh.takeLines same
    obtain ⟨ended, reported, labels⟩ := state.finish
    unfold Assembler.assemble takeText
    dsimp only
    rw [← result]
    cases ((start asm).takeLines (Text.lines source.toList)).result with
    | error e => exact ⟨rfl, events, state.assembler.labels⟩
    | ok u =>
      refine ⟨ended, ?_, labels⟩
      exact congrArg₂ (· ++ ·) events reported

/-- Placeholders beside blank space of several kinds, in a macro that another one invokes. The last
line names a register that there is not. -/
theorem tokens_decide_assembly_expanding :
    let lines := ["#BEGIN  Twice\t$1 $2", "\tADDI $1 $2\u00a0$1 ", "// twice", "#End ",
      "#begin both $1", "Loop$1: twice\u2003V$1 0x$1", "#end", "both 3", "jump LOOP3"]
    let lines' := ["#begin twice $1 $2", "addi $1 $2 $1", "  //\tTWICE", "#end", "#begin both $1",
      "loop$1: twice v$1 0x$1", "#end", "  both 3", "jump loop3"]
    let p := Program.ofArray #[.arithImm .add .v3 3 .v3, .branch .always 0]
    let take (lines : List String) := (start {}).takeLines (lines.map String.toList)
    (take lines).state.finish.result = .ok p ∧ (take lines').state.finish.result = .ok p ∧
      (take (lines' ++ ["both 99"])).result = .error ⟨10, .unknownRegister "v99".toList⟩ ∧
      (take (lines ++ ["BOTH\t99"])).result = .error ⟨10, .unknownRegister "v99".toList⟩ := by
  intro lines lines' p take
  have decides := (tokens_decide_assembly {} {}).1
  have respaced : (lines.map String.toList).map Text.tokens =
      (lines'.map String.toList).map Text.tokens := by
    decide +kernel
  have failing : ((lines ++ ["BOTH\t99"]).map String.toList).map Text.tokens =
      ((lines' ++ ["both 99"]).map String.toList).map Text.tokens := by
    decide +kernel
  have program : (take lines').state.finish.result = .ok p := by decide +kernel
  have error : (take (lines' ++ ["both 99"])).result =
      .error ⟨10, .unknownRegister "v99".toList⟩ := by
    decide +kernel
  exact ⟨(decides _ _ respaced).2.2.1.trans program, program, error,
    (decides _ _ failing).1.trans error⟩

end Session

end RegisterMachine
