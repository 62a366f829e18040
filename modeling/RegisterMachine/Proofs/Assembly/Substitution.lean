import Mathlib.Data.List.Infix
import Mathlib.Data.List.MinMax
import RegisterMachine.Proofs.Assembly.Headers
import RegisterMachine.Proofs.Text.Tokens
/-! Arguments in a macro body: put in for one placeholder after another, or for all of them in one
pass. A placeholder that comes late finds also what was put in before it, and there the two part. -/
namespace RegisterMachine.Macro

def leading? (bindings : List (Token × Token)) (text : List Char) : Option (Token × Token) :=
  (bindings.filter fun b => b.1.isPrefixOf text).argmax fun b => b.1.length

/-- Scans a text whose next `skip` characters belong to a placeholder that has its argument. -/
def fillFrom (bindings : List (Token × Token)) : Nat → List Char → List Char
  | _, [] => []
  | skip + 1, _ :: rest => fillFrom bindings skip rest
  | 0, c :: rest =>
    match leading? bindings (c :: rest) with
    | some b => b.2 ++ fillFrom bindings (b.1.length - 1) rest
    | none => c :: fillFrom bindings 0 rest

/-- Puts the arguments in place of the placeholders in one pass from the left. Where several
placeholders begin, the longest counts; what is put in is not searched. -/
def fillAtOnce (bindings : List (Token × Token)) (line : Line) : Line := fillFrom bindings 0 line

def IsPlaceholder (p : Token) : Prop := ∃ rest, p = '$' :: rest ∧ '$' ∉ rest

def Compatible (u v : List Char) : Prop := u <+: v ∨ v <+: u

/-- Where the argument of `c` is put into the line, the placeholder `p` may turn up. -/
inductive Disturbs (p : Token) (c : Token × Token) (line : Line) : Prop
  /-- It begins in the argument. -/
  | within (there : c.1 <:+: line) {s : List Char} (nonempty : s ≠ []) (suffix : s <:+ c.2)
      (found : Compatible p s) : Disturbs p c line
  /-- It begins in the text before and goes on in the argument. -/
  | across {u v : List Char} (cut : p = u ++ v) (before : u ≠ []) (after : v ≠ [])
      (there : u ++ c.1 <:+: line) (found : Compatible v c.2) : Disturbs p c line

/-! ### One pass -/

section
variable {bindings rest : List (Token × Token)} {b : Token × Token} {text : List Char}

theorem leading?_eq_none_iff : leading? bindings text = none ↔ ∀ b ∈ bindings, ¬b.1 <+: text := by
  simp [leading?, List.argmax_eq_none, List.filter_eq_nil_iff]

theorem leading?_spec (h : leading? bindings text = some b) :
    b ∈ bindings ∧ b.1 <+: text ∧ ∀ c ∈ bindings, c.1 <+: text → c.1.length ≤ b.1.length := by
  have listed := List.argmax_mem h
  simp only [List.mem_filter, List.isPrefixOf_iff_prefix] at listed
  refine ⟨listed.1, listed.2, fun c hc leads => ?_⟩
  have also : c ∈ bindings.filter fun b => b.1.isPrefixOf text := by simp [hc, leads]
  exact List.le_of_mem_argmax (f := fun b : Token × Token => b.1.length) also h

theorem leading?_cons_neg (h : ¬b.1 <+: text) :
    leading? (b :: rest) text = leading? rest text := by
  have no : b.1.isPrefixOf text = false := by
    rwa [← Bool.not_eq_true, List.isPrefixOf_iff_prefix]
  simp only [leading?, List.filter_cons, no, Bool.false_eq_true, if_false]

theorem leading?_cons_pos (h : b.1 <+: text) :
    leading? (b :: rest) text = some
      (match leading? rest text with
      | some c => if b.1.length < c.1.length then c else b
      | none => b) := by
  have yes : b.1.isPrefixOf text = true := List.isPrefixOf_iff_prefix.2 h
  simp only [leading?, List.filter_cons, yes, if_true, List.argmax_cons]
  cases List.argmax (fun b => b.1.length) (rest.filter fun b => b.1.isPrefixOf text) with
  | none => rfl
  | some c => exact (apply_ite some _ c b).symm

theorem leading?_cons_of_some {c : Token × Token} (longer : ∀ c ∈ rest, ¬c.1 <+: b.1)
    (h : leading? rest text = some c) : leading? (b :: rest) text = some c := by
  by_cases leads : b.1 <+: text
  · obtain ⟨listed, leads', -⟩ := leading?_spec h
    have shorter : b.1.length < c.1.length := by
      by_contra le
      exact longer c listed (List.prefix_of_prefix_length_le leads' leads (by omega))
    rw [leading?_cons_pos leads, h]
    simp [shorter]
  · rw [leading?_cons_neg leads, h]

theorem fillFrom_eq_drop (k : Nat) :
    fillFrom bindings k text = fillAtOnce bindings (text.drop k) := by
  induction text generalizing k with
  | nil => cases k <;> rfl
  | cons c text ih =>
    cases k with
    | zero => rfl
    | succ k => exact ih k

theorem fillAtOnce_of_leading (h : leading? bindings (b.1 ++ text) = some b) (nonempty : b.1 ≠ []) :
    fillAtOnce bindings (b.1 ++ text) = b.2 ++ fillAtOnce bindings text := by
  obtain ⟨d, ds, hd⟩ := List.exists_cons_of_ne_nil nonempty
  rw [hd, List.cons_append] at h ⊢
  simp only [fillAtOnce, fillFrom, h, hd, List.length_cons, Nat.add_sub_cancel]
  rw [fillFrom_eq_drop, List.drop_left]
  rfl

theorem fillAtOnce_of_none {d : Char} (h : leading? bindings (d :: text) = none) :
    fillAtOnce bindings (d :: text) = d :: fillAtOnce bindings text := by
  rw [fillAtOnce, fillFrom, h]
  rfl

/-- Induction along a pass: over the longest of the placeholders that begin here, or over one
character. -/
theorem pass_induction (bindings : List (Token × Token)) (nonempty : ∀ b ∈ bindings, b.1 ≠ [])
    {motive : List Char → Prop} (nil : motive [])
    (hole : ∀ b tail, leading? bindings (b.1 ++ tail) = some b → motive tail → motive (b.1 ++ tail))
    (kept : ∀ d tail, leading? bindings (d :: tail) = none → motive tail → motive (d :: tail))
    (text : List Char) : motive text := by
  induction hn : text.length using Nat.strongRecOn generalizing text with
  | ind n ih =>
    cases lead : leading? bindings text with
    | some b =>
      obtain ⟨listed, ⟨tail, rfl⟩, -⟩ := leading?_spec lead
      have positive := List.length_pos_iff.2 (nonempty b listed)
      exact hole b tail lead (ih tail.length (by rw [← hn, List.length_append]; omega) tail rfl)
    | none =>
      cases text with
      | nil => exact nil
      | cons d tail =>
        exact kept d tail lead (ih tail.length (by rw [← hn, List.length_cons]; omega) tail rfl)

theorem replace_eq_fillAtOnce (p new : Token) (text : List Char) :
    Text.replace p new text = fillAtOnce [(p, new)] text := by
  suffices ∀ k, Text.replaceFrom p new k text = fillFrom [(p, new)] k text from this 0
  intro k
  induction text generalizing k with
  | nil => cases k <;> rfl
  | cons d text ih =>
    cases k with
    | succ k => exact ih k
    | zero =>
      rw [Text.replaceFrom, fillFrom]
      by_cases leads : p.isPrefixOf (d :: text) = true
      · have h : leading? [(p, new)] (d :: text) = some (p, new) :=
          leading?_cons_pos (List.isPrefixOf_iff_prefix.1 leads)
        rw [if_pos leads, h, ih]
      · have h : leading? [(p, new)] (d :: text) = none :=
          leading?_cons_neg (by rwa [List.isPrefixOf_iff_prefix] at leads)
        rw [if_neg leads, h, ih]

theorem fillAtOnce_append_plain (named : ∀ b ∈ bindings, IsPlaceholder b.1) {u : List Char}
    (plain : '$' ∉ u) : fillAtOnce bindings (u ++ text) = u ++ fillAtOnce bindings text := by
  induction u with
  | nil => rfl
  | cons d u ih =>
    simp only [List.mem_cons, not_or] at plain
    have none : leading? bindings (d :: (u ++ text)) = none := by
      refine leading?_eq_none_iff.2 fun b hb leads => ?_
      obtain ⟨ds, hds, -⟩ := named b hb
      rw [hds, List.cons_prefix_cons] at leads
      exact plain.1 leads.1
    rw [List.cons_append, fillAtOnce_of_none none, ih plain.2]
    rfl

/-- A text that begins what comes of a pass begins the line too, or else reaches the place of an
argument. -/
theorem prefix_fillAtOnce (nonempty : ∀ b ∈ bindings, b.1 ≠ []) {q : List Char}
    (h : q <+: fillAtOnce bindings text) :
    q <+: text ∨ ∃ u v c, c ∈ bindings ∧ q = u ++ v ∧ v ≠ [] ∧ u ++ c.1 <+: text ∧
      Compatible v c.2 := by
  induction text using pass_induction bindings nonempty generalizing q with
  | nil => exact .inl h
  | hole c tail lead ih =>
    obtain ⟨listed, leads, -⟩ := leading?_spec lead
    rw [fillAtOnce_of_leading lead (nonempty c listed)] at h
    by_cases empty : q = []
    · exact .inl (empty ▸ List.nil_prefix)
    · exact .inr ⟨[], q, c, listed, rfl, empty, leads,
        List.prefix_or_prefix_of_prefix h (List.prefix_append _ _)⟩
  | kept d tail none ih =>
    rw [fillAtOnce_of_none none] at h
    cases q with
    | nil => exact .inl List.nil_prefix
    | cons e q =>
      obtain ⟨rfl, later⟩ := List.cons_prefix_cons.1 h
      rcases ih later with inside | ⟨u, v, c, listed, rfl, reaches, inside, meets⟩
      · exact .inl (List.cons_prefix_cons.2 ⟨rfl, inside⟩)
      · exact .inr ⟨e :: u, v, c, listed, rfl, reaches,
          List.cons_prefix_cons.2 ⟨rfl, inside⟩, meets⟩

end

/-! ### One placeholder after another -/

section
variable {p : Token} {b c : Token × Token} {rest bindings : List (Token × Token)} {line : Line}

theorem IsPlaceholder.ne_nil (h : IsPlaceholder p) : p ≠ [] := by
  obtain ⟨ds, rfl, -⟩ := h
  exact List.cons_ne_nil _ _

theorem Disturbs.mono {part : Line} (h : Disturbs p c part) (inside : part <:+: line) :
    Disturbs p c line := by
  rcases h with ⟨there, nonempty, suffix, found⟩ | ⟨cut, before, after, there, found⟩
  · exact .within (there.trans inside) nonempty suffix found
  · exact .across cut before after (there.trans inside) found

theorem fillAtOnce_append_argument {text : List Char}
    (apart : ∀ s, s ≠ [] → s <:+ text → ¬Compatible b.1 s) (tail : List Char) :
    fillAtOnce [b] (text ++ tail) = text ++ fillAtOnce [b] tail := by
  induction text with
  | nil => rfl
  | cons d text ih =>
    have none : leading? [b] (d :: (text ++ tail)) = none := by
      refine leading?_eq_none_iff.2 fun c hc leads => ?_
      obtain rfl := List.mem_singleton.1 hc
      exact apart (d :: text) (List.cons_ne_nil _ _) (List.suffix_refl _)
        (List.prefix_or_prefix_of_prefix leads (List.prefix_append (d :: text) tail))
    rw [List.cons_append, fillAtOnce_of_none none,
      ih fun s nonempty suffix => apart s nonempty (suffix.trans (List.suffix_cons d text))]
    rfl

/-- A placeholder more: a pass for it after the pass for the rest comes to one pass for all, unless
it is disturbed. -/
theorem fillAtOnce_cons (named : ∀ c ∈ b :: rest, IsPlaceholder c.1)
    (longer : ∀ c ∈ rest, ¬c.1 <+: b.1) (undisturbed : ∀ c ∈ rest, ¬Disturbs b.1 c line) :
    fillAtOnce [b] (fillAtOnce rest line) = fillAtOnce (b :: rest) line := by
  obtain ⟨named_b, named_rest⟩ := List.forall_mem_cons.1 named
  have nonempty : ∀ c ∈ b :: rest, c.1 ≠ [] := fun c hc => (named c hc).ne_nil
  have nonempty_rest := (List.forall_mem_cons.1 nonempty).2
  induction line using pass_induction (b :: rest) nonempty with
  | nil => rfl
  | hole c tail lead ih =>
    have later := ih fun c hc disturbs =>
      undisturbed c hc (disturbs.mono (List.suffix_append _ _).isInfix)
    obtain ⟨listed, leads, -⟩ := leading?_spec lead
    rw [fillAtOnce_of_leading lead (nonempty c listed), ← later]
    cases lead_rest : leading? rest (c.1 ++ tail) with
    | some c' =>
      -- the argument of another placeholder is left alone
      obtain rfl : c' = c := by
        simpa [leading?_cons_of_some longer lead_rest] using lead
      obtain ⟨listed, -, -⟩ := leading?_spec lead_rest
      rw [fillAtOnce_of_leading lead_rest (nonempty_rest c' listed)]
      exact fillAtOnce_append_argument (fun s hs suffix found =>
        undisturbed c' listed (.within leads.isInfix hs suffix found)) _
    | none =>
      -- the others pass over the placeholder itself
      obtain rfl : c = b := by
        by_contra other
        have listed := (List.mem_cons.1 listed).resolve_left other
        exact leading?_eq_none_iff.1 lead_rest c listed leads
      obtain ⟨ds, hds, plain⟩ := named_b
      have passed : fillAtOnce rest (c.1 ++ tail) = c.1 ++ fillAtOnce rest tail := by
        rw [hds, List.cons_append] at lead_rest ⊢
        rw [fillAtOnce_of_none lead_rest, fillAtOnce_append_plain named_rest plain]
        rfl
      rw [passed]
      exact fillAtOnce_of_leading (leading?_cons_pos (List.prefix_append _ _))
        (nonempty c List.mem_cons_self)
  | kept d tail none ih =>
    have later := ih fun c hc disturbs =>
      undisturbed c hc (disturbs.mono (List.suffix_cons d tail).isInfix)
    obtain ⟨notHere, none_rest⟩ := List.forall_mem_cons.1 (leading?_eq_none_iff.1 none)
    rw [fillAtOnce_of_none none, ← later]
    have passed := fillAtOnce_of_none (leading?_eq_none_iff.2 none_rest)
    rw [passed]
    refine fillAtOnce_of_none (leading?_eq_none_iff.2 fun c hc found => ?_)
    obtain rfl := List.mem_singleton.1 hc
    -- nor does the placeholder begin here once the others have their arguments
    rw [← passed] at found
    rcases prefix_fillAtOnce nonempty_rest found with
      inside | ⟨u, v, c', listed, cut, reaches, there, meets⟩
    · exact notHere inside
    · have before : u ≠ [] := by
        rintro rfl
        exact none_rest c' listed there
      exact undisturbed c' listed (.across cut before reaches there.isInfix meets)

/-- No placeholder begins one that is filled in after it, as `$1` begins `$10`. -/
def Ordered (bindings : List (Token × Token)) : Prop :=
  bindings.Pairwise fun b c => ¬c.1 <+: b.1

theorem fill_eq_fillAtOnce (named : ∀ c ∈ bindings, IsPlaceholder c.1) (ordered : Ordered bindings)
    (undisturbed : bindings.Pairwise fun b c => ¬Disturbs b.1 c line) :
    fill bindings line = fillAtOnce bindings line := by
  induction bindings with
  | nil =>
    have plain (text : List Char) : fillAtOnce [] text = text := by
      induction text with
      | nil => rfl
      | cons d text ih => rw [fillAtOnce_of_none rfl, ih]
    exact (plain line).symm
  | cons b rest ih =>
    have inner := ih (List.forall_mem_cons.1 named).2 ordered.of_cons undisturbed.of_cons
    calc fill (b :: rest) line
        = Text.replace b.1 b.2 (fill rest line) := rfl
      _ = fillAtOnce [b] (fillAtOnce rest line) := by rw [inner, replace_eq_fillAtOnce]
      _ = fillAtOnce (b :: rest) line :=
          fillAtOnce_cons named (List.pairwise_cons.1 ordered).1
            (List.pairwise_cons.1 undisturbed).1

/-! ### Which placeholders turn up -/

theorem infix_of_infix_append_plain (hp : IsPlaceholder p) {u tail : List Char} (plain : '$' ∉ u)
    (h : p <:+: u ++ tail) : p <:+: tail := by
  obtain ⟨ds, rfl, -⟩ := hp
  induction u with
  | nil => exact h
  | cons d u ih =>
    simp only [List.mem_cons, not_or] at plain
    rcases List.infix_cons_iff.1 h with here | later
    · exact absurd (List.cons_prefix_cons.1 here).1 plain.1
    · exact ih plain.2 later

theorem infix_fillAtOnce (named : ∀ c ∈ bindings, IsPlaceholder c.1) (listed : b ∈ bindings)
    (there : b.1 <:+: line) : ∃ c ∈ bindings, b.1 <+: c.1 ∧ c.2 <:+: fillAtOnce bindings line := by
  have nonempty : ∀ c ∈ bindings, c.1 ≠ [] := fun c hc => (named c hc).ne_nil
  induction line using pass_induction bindings nonempty with
  | nil => exact absurd (List.infix_nil.1 there) (nonempty b listed)
  | hole c tail lead ih =>
    obtain ⟨listed', leads, longest⟩ := leading?_spec lead
    rw [fillAtOnce_of_leading lead (nonempty c listed')]
    by_cases here : b.1 <+: c.1 ++ tail
    · exact ⟨c, listed', List.prefix_of_prefix_length_le here leads (longest b listed here),
        (List.prefix_append _ _).isInfix⟩
    · obtain ⟨ds, hds, plain⟩ := named c listed'
      rw [hds, List.cons_append] at there here
      have later := infix_of_infix_append_plain (named b listed) plain
        ((List.infix_cons_iff.1 there).resolve_left here)
      obtain ⟨c', hc', begins, found⟩ := ih later
      exact ⟨c', hc', begins, found.trans (List.suffix_append _ _).isInfix⟩
  | kept d tail none ih =>
    have notHere := leading?_eq_none_iff.1 none b listed
    obtain ⟨c, hc, begins, found⟩ := ih ((List.infix_cons_iff.1 there).resolve_left notHere)
    rw [fillAtOnce_of_none none]
    exact ⟨c, hc, begins, List.infix_cons found⟩

theorem not_infix_fillAtOnce (hp : IsPlaceholder p) {x : Char} (apart : x ∉ p) (line : Line) :
    ¬p <:+: fillAtOnce [(p, [x])] line := by
  have nonempty : ∀ c ∈ [(p, [x])], c.1 ≠ [] := by simpa using hp.ne_nil
  have clear {v : List Char} (part : ∀ y ∈ v, y ∈ p) (hv : v ≠ []) : ¬Compatible v [x] := by
    obtain ⟨y, v, rfl⟩ := List.exists_cons_of_ne_nil hv
    have differ : y ≠ x := fun same => apart (same ▸ part y List.mem_cons_self)
    rintro (h | h)
    · exact differ (List.cons_prefix_cons.1 h).1
    · exact differ (List.cons_prefix_cons.1 h).1.symm
  induction line using pass_induction [(p, [x])] nonempty with
  | nil => exact fun there => hp.ne_nil (List.infix_nil.1 there)
  | hole c tail lead ih =>
    obtain ⟨listed, -, -⟩ := leading?_spec lead
    rw [fillAtOnce_of_leading lead (nonempty c listed)]
    obtain rfl := List.mem_singleton.1 listed
    intro there
    rcases List.infix_cons_iff.1 there with here | later
    · exact clear (fun _ hy => hy) hp.ne_nil
        (List.prefix_or_prefix_of_prefix here (List.prefix_append [x] _))
    · exact ih later
  | kept d tail none ih =>
    intro there
    have notHere := leading?_eq_none_iff.1 none _ List.mem_cons_self
    have passed := fillAtOnce_of_none none
    rw [passed] at there
    rcases List.infix_cons_iff.1 there with here | later
    · rw [← passed] at here
      rcases prefix_fillAtOnce nonempty here with inside | ⟨u, v, c, listed, cut, reaches, -, meets⟩
      · exact notHere inside
      · obtain rfl := List.mem_singleton.1 listed
        exact clear (fun y hy => cut ▸ List.mem_append_right u hy) reaches meets
    · exact ih later

theorem Disturbs.there (h : Disturbs p c line) : c.1 <:+: line := by
  rcases h with ⟨there, -, -, -⟩ | ⟨-, -, -, there, -⟩
  · exact there
  · exact (List.suffix_append _ _).isInfix.trans there

end

/-! ### The placeholders by number -/

theorem isPlaceholder_placeholder (k : Nat) : IsPlaceholder (placeholder k) :=
  ⟨_, rfl, fun inside => absurd (Numeral.isDigit_of_mem_digits inside) (by decide)⟩

theorem le_of_placeholder_leads {j k : Nat} (h : placeholder j <+: placeholder k) : j ≤ k := by
  have grows (digits : List Char) (n : Nat) : n ≤ Nat.ofDigitChars 10 digits n := by
    induction digits generalizing n with
    | nil => exact Nat.le_refl n
    | cons d digits ih =>
      rw [Nat.ofDigitChars_cons]
      have := ih (10 * n + (d.toNat - '0'.toNat))
      omega
  obtain ⟨digits, more⟩ := (List.cons_prefix_cons.1 h).2
  have value := Nat.ofDigitChars_ten_toDigits (n := k)
  rw [← more, Nat.ofDigitChars_append, Nat.ofDigitChars_ten_toDigits] at value
  exact value ▸ grows digits j

theorem isPlaceholder_of_mem {n : Nat} {p : Token} (hp : p ∈ placeholders n) : IsPlaceholder p := by
  obtain ⟨k, -, rfl⟩ := List.mem_map.1 hp
  exact isPlaceholder_placeholder k

theorem pairwise_placeholders (n : Nat) :
    (placeholders n).Pairwise fun p q => ¬q <+: p := by
  refine List.pairwise_map.2 ((List.pairwise_lt_range' 1).imp fun lt longer => ?_)
  exact absurd (le_of_placeholder_leads longer) (by omega)

theorem ordered_zip {n : Nat} {args : List Token} (fits : args.length = n) :
    Ordered ((placeholders n).zip args) := by
  have keys : ((placeholders n).zip args).map Prod.fst = placeholders n :=
    List.map_fst_zip (by simp [placeholders, fits])
  have ordered := pairwise_placeholders n
  rw [← keys, List.pairwise_map] at ordered
  exact ordered

theorem not_disturbs_of_name {k : Nat} {c : Token × Token} {d : Char} {name : List Char}
    (argument : c.2 = d :: name) (letter : d.isDigit = false) (plain : '$' ∉ c.2) (line : Line) :
    ¬Disturbs (placeholder k) c line := by
  rintro (⟨-, nonempty, suffix, found⟩ | ⟨cut, before, after, -, found⟩)
  · rename_i s
    obtain ⟨e, s, rfl⟩ := List.exists_cons_of_ne_nil nonempty
    have dollar : '$' = e := by
      rcases found with h | h
      · exact (List.cons_prefix_cons.1 h).1
      · exact (List.cons_prefix_cons.1 h).1.symm
    exact plain (suffix.subset (dollar ▸ List.mem_cons_self))
  · rename_i u v
    obtain ⟨e, v, rfl⟩ := List.exists_cons_of_ne_nil after
    obtain ⟨f, u, rfl⟩ := List.exists_cons_of_ne_nil before
    have digits : Nat.toDigits 10 k = u ++ e :: v := (List.cons.inj cut).2
    have digit : e.isDigit = true :=
      Numeral.isDigit_of_mem_digits (n := k) (by simp [digits])
    have same : e = d := by
      rw [argument] at found
      rcases found with h | h
      · exact (List.cons_prefix_cons.1 h).1
      · exact (List.cons_prefix_cons.1 h).1.symm
    simp [← same, digit] at letter

/-! ### The body of a macro -/

theorem pairwise_of_tail {α : Type} {r : α → α → Prop} {l : List α}
    (h : ∀ c ∈ l.tail, ∀ b ∈ l, r b c) : l.Pairwise r := by
  cases l with
  | nil => exact .nil
  | cons a l =>
    exact List.pairwise_cons.2 ⟨fun c hc => h c hc a List.mem_cons_self,
      List.pairwise_of_forall_mem_list fun b hb c hc => h c hc b (List.mem_cons_of_mem a hb)⟩

section
variable {m : Macro} {args : List Token}

theorem substitute_eq_at_once_iff (fits : args.length = m.params.length) :
    m.substitute args = .ok (m.body.map (fillAtOnce (m.params.zip args))) ↔
      ∀ line ∈ m.body, fill (m.params.zip args) line = fillAtOnce (m.params.zip args) line := by
  rw [substitute, if_pos fits, Except.ok.injEq, List.map_inj_left]

theorem fill_eq_of_numbered (numbered : m.params = placeholders m.params.length)
    (fits : args.length = m.params.length) {line : Line}
    (undisturbed : (m.params.zip args).Pairwise fun b c => ¬Disturbs b.1 c line) :
    fill (m.params.zip args) line = fillAtOnce (m.params.zip args) line := by
  have ordered : Ordered (m.params.zip args) := by
    rw [numbered]
    exact ordered_zip fits
  refine fill_eq_fillAtOnce (fun c hc => ?_) ordered undisturbed
  have listed := (List.of_mem_zip hc).1
  rw [numbered] at listed
  exact isPlaceholder_of_mem listed

/-- With the first placeholder for an argument, the place of any other gives it away that the
arguments do not go in at once: the pass for the first finds them. -/
theorem fill_ne_fillAtOnce {rest : List (Token × Token)} {x : Char} (apart : x ∉ placeholder 1)
    (named : ∀ c ∈ rest, IsPlaceholder c.1) (later : ∀ c ∈ rest, ¬c.1 <+: placeholder 1)
    (same : ∀ c ∈ rest, c.2 = placeholder 1) {b : Token × Token} (listed : b ∈ rest) {line : Line}
    (there : b.1 <:+: line) :
    fill ((placeholder 1, [x]) :: rest) line ≠ fillAtOnce ((placeholder 1, [x]) :: rest) line := by
  intro eq
  have named : ∀ c ∈ (placeholder 1, [x]) :: rest, IsPlaceholder c.1 :=
    List.forall_mem_cons.2 ⟨isPlaceholder_placeholder 1, named⟩
  obtain ⟨c, hc, begins, found⟩ :=
    infix_fillAtOnce named (List.mem_cons_of_mem (placeholder 1, [x]) listed) there
  have other : c ∈ rest :=
    (List.mem_cons.1 hc).resolve_left fun first => later b listed (by simpa [first] using begins)
  have filled : fill ((placeholder 1, [x]) :: rest) line =
      fillAtOnce [(placeholder 1, [x])] (fill rest line) := replace_eq_fillAtOnce _ _ _
  rw [← eq, same c other, filled] at found
  exact not_infix_fillAtOnce (isPlaceholder_placeholder 1) apart _ found

theorem exists_disturbed (numbered : m.params = placeholders m.params.length) {line : Line}
    {p : Token} (listed : p ∈ m.params.tail) (there : p <:+: line) :
    ∃ args, args.length = m.params.length ∧ (∀ a ∈ args, Text.IsToken a) ∧
      fill (m.params.zip args) line ≠ fillAtOnce (m.params.zip args) line := by
  generalize m.params.length = n at numbered
  cases n with
  | zero => simp [numbered, placeholders] at listed
  | succ n =>
    have pairwise := pairwise_placeholders (n + 1)
    rw [numbered]
    rw [numbered] at listed
    rw [placeholders, List.range'_succ, List.map_cons] at pairwise listed ⊢
    generalize hothers : (List.range' (1 + 1) n).map placeholder = others at pairwise listed
    obtain ⟨later, -⟩ := List.pairwise_cons.1 pairwise
    have named : ∀ q ∈ others, IsPlaceholder q := by
      rw [← hothers]
      exact List.forall_mem_map.2 fun k _ => isPlaceholder_placeholder k
    let copies := List.replicate others.length (placeholder 1)
    have copy : ∀ a ∈ copies, a = placeholder 1 := fun a => List.eq_of_mem_replicate
    refine ⟨['x'] :: copies, by simp [copies, ← hothers], ?_, ?_⟩
    · refine List.forall_mem_cons.2 ⟨by decide, fun a ha => ?_⟩
      rw [copy a ha]
      decide
    · obtain ⟨c, hc, rfl⟩ : ∃ c ∈ others.zip copies, c.1 = p := by
        have keys : (others.zip copies).map Prod.fst = others := List.map_fst_zip (by simp [copies])
        exact List.mem_map.1 (keys.symm ▸ listed)
      exact fill_ne_fillAtOnce (by decide) (fun c hc => named c.1 (List.of_mem_zip hc).1)
        (fun c hc => later c.1 (List.of_mem_zip hc).1)
        (fun c hc => copy c.2 (List.of_mem_zip hc).2) hc there

/-- Arguments that are put in for one placeholder after another, the last one first, go in as they
would at once, unless an earlier placeholder turns up in what is put in for a later one. They do so
whatever they are just when the first placeholder is the only one in the body. -/
theorem arguments_go_in_at_once (numbered : m.params = placeholders m.params.length) :
    (∀ args, args.length = m.params.length →
      (∀ line ∈ m.body, (m.params.zip args).Pairwise fun b c => ¬Disturbs b.1 c line) →
        m.substitute args = .ok (m.body.map (fillAtOnce (m.params.zip args)))) ∧
    ((∀ args, args.length = m.params.length → (∀ a ∈ args, Text.IsToken a) →
        m.substitute args = .ok (m.body.map (fillAtOnce (m.params.zip args)))) ↔
      ∀ line ∈ m.body, ∀ p ∈ m.params.tail, ¬p <:+: line) := by
  have undisturbed (args : List Token) (fits : args.length = m.params.length)
      (apart : ∀ line ∈ m.body, (m.params.zip args).Pairwise fun b c => ¬Disturbs b.1 c line) :
      m.substitute args = .ok (m.body.map (fillAtOnce (m.params.zip args))) :=
    (substitute_eq_at_once_iff fits).2 fun line hline =>
      fill_eq_of_numbered numbered fits (apart line hline)
  refine ⟨undisturbed, fun always line hline p listed there => ?_, fun absent args fits _ => ?_⟩
  · obtain ⟨args, fits, tokens, differ⟩ := exists_disturbed numbered listed there
    exact differ ((substitute_eq_at_once_iff fits).1 (always args fits tokens) line hline)
  · refine undisturbed args fits fun line hline => ?_
    refine pairwise_of_tail fun c hc b _ disturbs => absent line hline c.1 ?_ disturbs.there
    have keys : (m.params.zip args).map Prod.fst = m.params := List.map_fst_zip (by omega)
    rw [← keys, ← List.map_tail]
    exact List.mem_map_of_mem hc

theorem arguments_go_in_at_once_ten :
    let m : Macro := ⟨"many".toList, placeholders 10, ["loadi $10 $1".toList]⟩
    let args := ["1", "2", "3", "4", "5", "6", "7", "8", "9", "v3"].map String.toList
    m.substitute args = .ok ["loadi v3 1".toList] ∧
      ¬∀ args, args.length = m.params.length → (∀ a ∈ args, Text.IsToken a) →
        m.substitute args = .ok (m.body.map (fillAtOnce (m.params.zip args))) := by
  intro m args
  have numbered : m.params = placeholders m.params.length := rfl
  obtain ⟨apart, always⟩ := arguments_go_in_at_once numbered
  have last : ∀ c ∈ (m.params.zip args).tail, c.1 <:+: "loadi $10 $1".toList →
      c.2 = "v3".toList := by decide +kernel
  have undisturbed : ∀ line ∈ m.body,
      (m.params.zip args).Pairwise fun b c => ¬Disturbs b.1 c line := by
    intro line hline
    obtain rfl := List.mem_singleton.1 hline
    refine pairwise_of_tail fun c hc b hb disturbs => ?_
    obtain ⟨k, -, hk⟩ := List.mem_map.1 (List.of_mem_zip hb).1
    have name := last c hc disturbs.there
    rw [← hk] at disturbs
    exact not_disturbs_of_name name (by decide) (by rw [name]; decide) _ disturbs
  refine ⟨(apart args rfl undisturbed).trans (by decide +kernel), fun all => ?_⟩
  exact always.1 all _ List.mem_cons_self "$10".toList (by decide +kernel) (by decide +kernel)

/-- The argument for the second parameter is the placeholder of the first, and goes the way of
that. -/
theorem argument_is_filled_in_again :
    ¬∀ (m : Macro) (args : List Token), m.params = placeholders m.params.length →
      args.length = m.params.length → (∀ a ∈ args, Text.IsToken a) →
        m.substitute args = .ok (m.body.map (fillAtOnce (m.params.zip args))) := by
  intro always
  have filled := always ⟨"swap".toList, ["$1".toList, "$2".toList], ["move $2 $1".toList]⟩
    ["v0".toList, "$1".toList] (by decide +kernel) rfl (by decide +kernel)
  exact absurd filled (by decide +kernel)

/-- A dollar sign in the body and a number that is put in after it make a placeholder. -/
example :
    fill [("$1".toList, "v0".toList), ("$2".toList, "1".toList)] "loadi $$2".toList =
      "loadi v0".toList := by
  decide +kernel

end

end RegisterMachine.Macro
