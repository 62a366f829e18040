import Mathlib.Data.List.DropRight
import RegisterMachine.Proofs.Text.Joined
import RegisterMachine.Text.Replace
/-! Lines by their words. Lower-casing a line and replacing a placeholder in it go word by word:
blank space keeps the words apart, whatever becomes of them. -/
namespace RegisterMachine.Text

def IsToken (t : List Char) : Prop := t ≠ [] ∧ ∀ c ∈ t, isBlank c = false

instance (t : List Char) : Decidable (IsToken t) :=
  decidable_of_iff (t ≠ [] ∧ (t.all fun c => !isBlank c) = true) (by simp [IsToken])

theorem isToken_of_mem_words {line : Line} {w : Token} (hw : w ∈ words line) : IsToken w :=
  ⟨ne_nil_of_mem_words hw, fun _ hc => not_isBlank_of_mem_words hw hc⟩

theorem words_of_isToken {t : Token} (ht : IsToken t) : words t = [t] := by
  rw [words, splitWhere_eq_splitOnP, List.splitOnP_eq_singleton ht.2]
  simp [ht.1]

theorem words_append_cons {c : Char} (hc : isBlank c = true) (u v : Line) :
    words (u ++ c :: v) = words u ++ words v := by
  simp only [words, splitWhere_eq_splitOnP, List.splitOnP_append_cons u v hc, List.filter_append]

theorem words_cons_blank {c : Char} (hc : isBlank c = true) (line : Line) :
    words (c :: line) = words line :=
  words_append_cons hc [] line

theorem words_concat_blank {c : Char} (hc : isBlank c = true) (line : Line) :
    words (line ++ [c]) = words line := by
  rw [words_append_cons hc line []]
  exact List.append_nil _

/-- What leaves blank space in its place and makes tokens of tokens goes word by word. -/
theorem words_of_piecewise {f : Line → Line} (nil : f [] = [])
    (cut : ∀ (u : Line) (c : Char) (v : Line), isBlank c = true →
      f (u ++ c :: v) = f u ++ c :: f v)
    (token : ∀ t, IsToken t → IsToken (f t)) (line : Line) :
    words (f line) = (words line).map f := by
  induction hn : line.length using Nat.strongRecOn generalizing line with
  | ind n ih =>
    by_cases blank : ∃ c ∈ line, isBlank c = true
    · obtain ⟨c, hmem, hc⟩ := blank
      obtain ⟨u, v, rfl⟩ := List.append_of_mem hmem
      simp only [List.length_append, List.length_cons] at hn
      rw [cut u c v hc, words_append_cons hc, words_append_cons hc, List.map_append,
        ih u.length (by omega) u rfl, ih v.length (by omega) v rfl]
    · by_cases empty : line = []
      · subst empty
        rw [nil]
        rfl
      · have ht : IsToken line := ⟨empty, by simpa using blank⟩
        rw [words_of_isToken ht, words_of_isToken (token line ht)]
        rfl

theorem words_dropWhile (line : Line) : words (line.dropWhile isBlank) = words line := by
  induction line with
  | nil => rfl
  | cons c rest ih =>
    rw [List.dropWhile_cons]
    split
    · rw [ih, words_cons_blank (by assumption)]
    · rfl

theorem words_rdropWhile (line : Line) : words (line.rdropWhile isBlank) = words line := by
  induction line using List.reverseRecOn with
  | nil => rfl
  | append_singleton rest c ih =>
    rw [List.rdropWhile_concat]
    split
    · rw [ih, words_concat_blank (by assumption)]
    · rfl

theorem words_trim (line : Line) : words (trim line) = words line :=
  (words_rdropWhile _).trans (words_dropWhile line)

/-! ### Lower case -/

def blankCodes : List Nat := blankRanges.flatMap fun r => List.range' r.1 (r.2 + 1 - r.1)

theorem blank_caseless {c : Char} (hc : isBlank c = true) :
    lowerChar c = [c] ∧ c ≠ 'Σ' ∧ inRanges passedOverRanges c.toNat = false ∧
      inRanges casedRanges c.toNat = false := by
  have same : ∀ n ∈ blankCodes, lowerChar (Char.ofNat n) = [Char.ofNat n] ∧ Char.ofNat n ≠ 'Σ' := by
    decide +kernel
  have apart : ∀ n ∈ blankCodes,
      inRanges passedOverRanges n = false ∧ inRanges casedRanges n = false := by
    decide +kernel
  obtain ⟨r, hr, inside⟩ := List.any_eq_true.1 hc
  simp only [Bool.and_eq_true, decide_eq_true_eq] at inside
  have listed : c.toNat ∈ blankCodes :=
    List.mem_flatMap.2 ⟨r, hr, List.mem_range'_1.2 ⟨inside.1, by omega⟩⟩
  have entry := same _ listed
  rw [Char.ofNat_toNat] at entry
  exact ⟨entry.1, entry.2, apart _ listed⟩

theorem letterRuns_apart : ∀ r ∈ letterRuns, ∀ b ∈ blankRanges,
    b.2 < r.image ∨ r.image + (r.last - r.first) < b.1 := by
  decide +kernel

theorem blankRanges_positive : ∀ b ∈ blankRanges, 0 < b.1 := by decide

theorem not_isBlank_counterpart {r : LetterRun} (hr : r ∈ letterRuns) {n : Nat}
    (hn : r.contains n = true) : isBlank (Char.ofNat (r.lower n)) = false := by
  have code : (Char.ofNat (r.lower n)).toNat = r.lower n ∨ (Char.ofNat (r.lower n)).toNat = 0 := by
    by_cases valid : (r.lower n).isValidChar
    · exact .inl (by rw [Char.ofNat, dif_pos valid]; rfl)
    · exact .inr (by rw [Char.ofNat, dif_neg valid]; rfl)
  simp only [LetterRun.contains, Bool.and_eq_true, decide_eq_true_eq] at hn
  refine List.any_eq_false.2 fun b hb inside => ?_
  simp only [Bool.and_eq_true, decide_eq_true_eq] at inside
  have apart := letterRuns_apart r hr b hb
  have positive : 0 < b.1 := blankRanges_positive b hb
  simp only [LetterRun.lower] at code inside
  omega

theorem isToken_lowerChar {c : Char} (hc : isBlank c = false) : IsToken (lowerChar c) := by
  unfold lowerChar
  split
  · have table : ∀ n < 0x80, isBlank (Char.ofNat n) = false →
        isBlank (Char.ofNat n).toLower = false := by decide
    have lower := table c.toNat (by assumption)
    rw [Char.ofNat_toNat] at lower
    exact ⟨List.cons_ne_nil _ _, by simpa using lower hc⟩
  split
  · decide
  split
  · rename_i r found
    have hr : r ∈ letterRuns := List.mem_of_find?_eq_some found
    have inside : r.contains c.toNat = true := by simpa using List.find?_some found
    have blankless := not_isBlank_counterpart hr inside
    exact ⟨List.cons_ne_nil _ _, by simpa using blankless⟩
  · exact ⟨List.cons_ne_nil _ _, by simpa using hc⟩

/-- Blank space hides what lies beyond it from a sigma. -/
theorem meetsCased_append_cons {c : Char} (hc : isBlank c = true) (u v : List Char) :
    meetsCased (u ++ c :: v) = meetsCased u := by
  obtain ⟨-, -, stays, caseless⟩ := blank_caseless hc
  induction u with
  | nil => simp [meetsCased, stays, caseless]
  | cons d rest ih =>
    unfold meetsCased at ih ⊢
    rw [List.cons_append, List.dropWhile_cons, List.dropWhile_cons]
    cases inRanges passedOverRanges d.toNat with
    | true => exact ih
    | false => rfl

theorem lowerFrom_append_blank {c : Char} (hc : isBlank c = true) (before beyond line : Line) :
    lowerFrom (before ++ c :: beyond) line = lowerFrom before line := by
  induction line generalizing before with
  | nil => rfl
  | cons d rest ih =>
    simp only [lowerFrom, sigmaEndsWord, meetsCased_append_cons hc]
    rw [← List.cons_append, ih]
    rfl

theorem lower_append_cons {c : Char} (hc : isBlank c = true) (u v : Line) :
    lower (u ++ c :: v) = lower u ++ c :: lower v := by
  have all (before : Line) :
      lowerFrom before (u ++ c :: v) = lowerFrom before u ++ c :: lower v := by
    induction u generalizing before with
    | nil =>
      obtain ⟨same, notSigma, -⟩ := blank_caseless hc
      simp only [List.nil_append, lowerFrom, notSigma, same, if_false]
      exact congrArg (c :: ·) (lowerFrom_append_blank hc [] before v)
    | cons d rest ih =>
      simp only [List.cons_append, lowerFrom, sigmaEndsWord, meetsCased_append_cons hc, ih,
        List.append_assoc]
      rfl
  exact all []

theorem isToken_lower {t : Token} (ht : IsToken t) : IsToken (lower t) := by
  have letter (before rest : Line) {c : Char} (hc : isBlank c = false) :
      IsToken
        (if c = 'Σ' then [if sigmaEndsWord before rest then 'ς' else 'σ'] else lowerChar c) := by
    split
    · split <;> decide
    · exact isToken_lowerChar hc
  have blankless (before : Line) : ∀ c ∈ lowerFrom before t, isBlank c = false := by
    obtain ⟨-, ht⟩ := ht
    induction t generalizing before with
    | nil => simp [lowerFrom]
    | cons c rest ih =>
      obtain ⟨hc, hrest⟩ := List.forall_mem_cons.1 ht
      exact List.forall_mem_append.2 ⟨(letter before rest hc).2, ih _ hrest⟩
  obtain ⟨c, rest, rfl⟩ := List.exists_cons_of_ne_nil ht.1
  have hc : isBlank c = false := ht.2 c List.mem_cons_self
  exact ⟨List.append_ne_nil_of_left_ne_nil (letter [] rest hc).1 _, blankless []⟩

theorem words_lower (line : Line) : words (lower line) = (words line).map lower :=
  words_of_piecewise rfl (fun u _ v hc => lower_append_cons hc u v) (fun _ => isToken_lower) line

/-! ### Replacing -/

theorem isPrefixOf_append_cons {p : List Char} {c : Char} (hc : c ∉ p) (u v : List Char) :
    p.isPrefixOf (u ++ c :: v) = p.isPrefixOf u := by
  induction p generalizing u with
  | nil => rfl
  | cons d p ih =>
    simp only [List.mem_cons, not_or] at hc
    cases u with
    | nil => simp [List.isPrefixOf, Ne.symm hc.1]
    | cons e u => simp [List.isPrefixOf, ih hc.2]

variable {p new : Token}

theorem replaceFrom_append_cons (hp : IsToken p) {c : Char} (hc : isBlank c = true) {k : Nat}
    {u : Line} (hk : k ≤ u.length) (v : Line) :
    replaceFrom p new k (u ++ c :: v) = replaceFrom p new k u ++ c :: replaceFrom p new 0 v := by
  have apart : c ∉ p := fun inside => by simp [hp.2 c inside] at hc
  induction u generalizing k with
  | nil =>
    obtain rfl : k = 0 := by simpa using hk
    have no := isPrefixOf_append_cons apart [] v
    have empty : p.isPrefixOf [] = false := by
      obtain ⟨d, rest, rfl⟩ := List.exists_cons_of_ne_nil hp.1
      rfl
    rw [List.nil_append] at no ⊢
    simp [replaceFrom, no, empty]
  | cons d rest ih =>
    cases k with
    | succ k => exact ih (by simpa using hk)
    | zero =>
      have whole := isPrefixOf_append_cons apart (d :: rest) v
      rw [List.cons_append] at whole ⊢
      simp only [replaceFrom, whole]
      split
      · rename_i found
        have fits : p.length ≤ (d :: rest).length := (List.isPrefixOf_iff_prefix.1 found).length_le
        rw [List.length_cons] at fits
        rw [ih (by omega), List.append_assoc]
      · rw [ih (by omega)]
        rfl

theorem isToken_replace (hnew : IsToken new) {t : Token} (ht : IsToken t) :
    IsToken (replace p new t) := by
  have blankless (k : Nat) : ∀ c ∈ replaceFrom p new k t, isBlank c = false := by
    obtain ⟨-, ht⟩ := ht
    induction t generalizing k with
    | nil => cases k <;> simp [replaceFrom]
    | cons d rest ih =>
      obtain ⟨hd, hrest⟩ := List.forall_mem_cons.1 ht
      cases k with
      | succ k => exact ih k hrest
      | zero =>
        simp only [replaceFrom]
        split
        · exact List.forall_mem_append.2 ⟨hnew.2, ih _ hrest⟩
        · exact List.forall_mem_cons.2 ⟨hd, ih 0 hrest⟩
  obtain ⟨d, rest, rfl⟩ := List.exists_cons_of_ne_nil ht.1
  refine ⟨?_, blankless 0⟩
  simp only [replace, replaceFrom]
  split
  · exact List.append_ne_nil_of_left_ne_nil hnew.1 _
  · exact List.cons_ne_nil _ _

theorem words_replace (hp : IsToken p) (hnew : IsToken new) (line : Line) :
    words (replace p new line) = (words line).map (replace p new) :=
  words_of_piecewise rfl (fun u _ v hc => replaceFrom_append_cons hp hc (Nat.zero_le u.length) v)
    (fun _ => isToken_replace hnew) line

def tokens (line : Line) : List Token := words (lower line)

theorem words_taken (line : Line) : words (lower (trim line)) = tokens line := by
  rw [tokens, words_lower, words_lower, words_trim]

theorem tokens_of_words {l l' : Line} (same : words l = words l') : tokens l = tokens l' := by
  rw [tokens, tokens, words_lower, words_lower, same]

/-! ### Where a line begins and ends -/

theorem exists_cut (line : Line) : ∃ t rest : Line, line = t ++ rest ∧
    (∀ c ∈ t, isBlank c = false) ∧ ∀ c ∈ rest.head?, isBlank c = true := by
  induction line with
  | nil => exact ⟨[], [], rfl, by simp, by simp⟩
  | cons c line ih =>
    cases hc : isBlank c with
    | true => exact ⟨[], c :: line, rfl, by simp, by simpa using hc⟩
    | false =>
      obtain ⟨t, rest, rfl, ht, hrest⟩ := ih
      exact ⟨c :: t, rest, rfl, List.forall_mem_cons.2 ⟨hc, ht⟩, hrest⟩

theorem eq_nil_or_word_first {line : Line} (first : ∀ c ∈ line.head?, isBlank c = false) :
    line = [] ∨ ∃ w rest ws, line = w ++ rest ∧ words line = w :: ws ∧
      ∀ c ∈ rest.head?, isBlank c = true := by
  obtain ⟨t, rest, rfl, ht, hrest⟩ := exists_cut line
  cases rest with
  | nil =>
    cases t with
    | nil => exact .inl rfl
    | cons c t =>
      refine .inr ⟨c :: t, [], [], rfl, ?_, by simp⟩
      rw [List.append_nil]
      exact words_of_isToken ⟨List.cons_ne_nil _ _, ht⟩
  | cons d rest =>
    have hd : isBlank d = true := hrest d rfl
    have hne : t ≠ [] := by
      rintro rfl
      simp [hd] at first
    refine .inr ⟨t, d :: rest, words rest, rfl, ?_, by simpa using hd⟩
    rw [words_append_cons hd, words_of_isToken ⟨hne, ht⟩]
    rfl

theorem words_eq_nil_iff {line : Line} : words line = [] ↔ ∀ c ∈ line, isBlank c = true := by
  induction line with
  | nil => simp [words, splitWhere]
  | cons c line ih =>
    cases hc : isBlank c with
    | true => simp [words_cons_blank hc, ih, hc]
    | false =>
      have first : ∀ d ∈ (c :: line).head?, isBlank d = false := by simpa using hc
      rcases eq_nil_or_word_first first with nil | ⟨w, rest, ws, -, hw, -⟩
      · cases nil
      · simp [hw, hc]

theorem head_trim (line : Line) : ∀ c ∈ (trim line).head?, isBlank c = false := by
  intro c hc
  have kept : trim line <+: line.dropWhile isBlank := List.rdropWhile_prefix isBlank _
  have head : (line.dropWhile isBlank).head? = some c := by
    obtain ⟨rest, same⟩ := kept
    rw [← same, List.head?_append, hc]
    rfl
  have stop := List.head?_dropWhile_not isBlank line
  rw [head] at stop
  exact stop

theorem last_trim (line : Line) : ∀ c ∈ (trim line).getLast?, isBlank c = false := by
  intro c hc
  obtain ⟨hne, rfl⟩ := List.mem_getLast?_eq_getLast hc
  exact Bool.eq_false_iff.2 (List.rdropWhile_last_not isBlank (line.dropWhile isBlank) hne)

theorem trim_eq_iff {w : Token} (hw : IsToken w) {line : Line} :
    trim line = w ↔ words line = [w] := by
  rw [← words_trim]
  constructor
  · rintro rfl
    exact words_of_isToken hw
  intro one
  rcases eq_nil_or_word_first (head_trim line) with nil | ⟨w', rest, ws, cut, hws, hrest⟩
  · rw [nil] at one
    cases one
  obtain ⟨rfl, rfl⟩ : w' = w ∧ ws = [] := by simpa [hws] using one
  cases rest with
  | nil => rw [cut, List.append_nil]
  | cons d rest =>
    have hd : isBlank d = true := hrest d rfl
    have blank : ∀ c ∈ rest, isBlank c = true := by
      rw [cut, words_append_cons hd, words_of_isToken hw] at hws
      exact words_eq_nil_iff.1 (by simpa using hws)
    have hne : d :: rest ≠ [] := List.cons_ne_nil d rest
    have last : (trim line).getLast? = some ((d :: rest).getLast hne) := by
      rw [cut, List.getLast?_append_of_ne_nil _ hne, List.getLast?_eq_some_getLast hne]
    have all : ∀ c ∈ d :: rest, isBlank c = true := List.forall_mem_cons.2 ⟨hd, blank⟩
    have blankLast := all _ (List.getLast_mem hne)
    rw [last_trim line _ last] at blankLast
    cases blankLast

theorem head_lower {line : Line} (first : ∀ c ∈ line.head?, isBlank c = false) :
    ∀ c ∈ (lower line).head?, isBlank c = false := by
  have start (w : Token) (hw : IsToken w) (rest : Line) :
      ∀ c ∈ (lower w ++ rest).head?, isBlank c = false := by
    obtain ⟨hne, blankless⟩ := isToken_lower hw
    obtain ⟨d, ds, hd⟩ := List.exists_cons_of_ne_nil hne
    rw [hd] at blankless ⊢
    simpa using blankless d List.mem_cons_self
  rcases eq_nil_or_word_first first with rfl | ⟨w, rest, ws, rfl, hws, hrest⟩
  · simp [lower, lowerFrom]
  have hw : IsToken w := isToken_of_mem_words (hws ▸ List.mem_cons_self)
  cases rest with
  | nil => simpa using start w hw []
  | cons d rest =>
    rw [lower_append_cons (hrest d rfl)]
    exact start w hw _

theorem isPrefixOf_eq_first {p : Token} (hp : IsToken p) {line : Line}
    (first : ∀ c ∈ line.head?, isBlank c = false) :
    p.isPrefixOf line = (words line).head?.any p.isPrefixOf := by
  rcases eq_nil_or_word_first first with rfl | ⟨w, rest, ws, rfl, hws, hrest⟩
  · obtain ⟨d, ds, rfl⟩ := List.exists_cons_of_ne_nil hp.1
    rfl
  rw [hws]
  cases rest with
  | nil => rw [List.append_nil]; rfl
  | cons d rest =>
    have apart : d ∉ p := fun inside => by simp [hp.2 d inside] at hrest
    exact isPrefixOf_append_cons apart w rest

theorem isEmpty_eq_words {line : Line} (first : ∀ c ∈ line.head?, isBlank c = false) :
    line.isEmpty = (words line).isEmpty := by
  rcases eq_nil_or_word_first first with rfl | ⟨w, rest, ws, rfl, hws, -⟩
  · rfl
  · have hw : IsToken w := isToken_of_mem_words (hws ▸ List.mem_cons_self)
    rw [hws]
    simp [hw.1]

end RegisterMachine.Text
