import ArmSimulator.Lib.Lexer

/-!
# Lexers by recognition

The tokens of a lexer, from what recognises its words: a function `label` that gives each word the
tag of the first rule that matches it (`firstRule`), and none to a word that no rule matches, except
that a single character is then a token without a tag (`Labels`). The next token is the longest
prefix that has a label (`tokens_of_longest`).
-/

namespace Lexer

variable {α τ : Type} [DecidableEq α]

/-- The first rule that matches the word. -/
def firstRule (rules : List (τ × RegularExpression α)) (w : List α) : Option τ :=
  (rules.find? fun r => r.2.rmatch w).map Prod.fst

/-- The words that have a label are those of the rules, and the single characters. -/
def Labels (rules : List (τ × RegularExpression α)) (label : List α → Option (Option τ)) : Prop :=
  ∀ w ≠ [], label w = match firstRule rules w with
    | some tag => some (some tag)
    | none => if w.length = 1 then some none else none

/-- A prefix that has a property, and that no longer one has it. -/
structure LongestPrefix (P : List α → Prop) (s : List α) (n : Nat) : Prop where
  pos : 0 < n
  le : n ≤ s.length
  holds : P (s.take n)
  longest : ∀ m, n < m → m ≤ s.length → ¬ P (s.take m)

section
variable {α : Type} {P : List α → Prop} {s w : List α} {m n : Nat}

/-- There is one if a prefix has the property. -/
theorem LongestPrefix.exists (hpos : 0 < m) (hm : m ≤ s.length) (h : P (s.take m)) :
    ∃ n, LongestPrefix P s n := by
  classical
  have hle : m ≤ Nat.findGreatest (fun n => P (s.take n)) s.length := Nat.le_findGreatest hm h
  have hgreatest := Nat.findGreatest_spec (P := fun n => P (s.take n)) hm h
  refine ⟨_, Nat.lt_of_lt_of_le hpos hle, Nat.findGreatest_le _, hgreatest, fun k hlt hk => ?_⟩
  exact Nat.findGreatest_is_greatest hlt hk

/-- There is only one. -/
theorem LongestPrefix.unique (h : LongestPrefix P s n) (h' : LongestPrefix P s m) : n = m := by
  by_contra hne
  rcases Nat.lt_or_gt_of_ne hne with hlt | hlt
  · exact h.longest m hlt h'.le h'.holds
  · exact h'.longest n hlt h.le h.holds

/-- More characters leave it the longest if none of the words that go on with them has the
property. -/
theorem LongestPrefix.append (h : LongestPrefix P w n)
    (hs : ∀ v, v ≠ [] → v <+: s → ¬ P (w ++ v)) : LongestPrefix P (w ++ s) n where
  pos := h.pos
  le := by
    rw [List.length_append]
    exact Nat.le_add_right_of_le h.le
  holds := by
    rw [List.take_append_of_le_length h.le]
    exact h.holds
  longest := by
    intro m hlt hm
    by_cases hmw : m ≤ w.length
    · rw [List.take_append_of_le_length hmw]
      exact h.longest m hlt hmw
    · obtain ⟨k, rfl⟩ : ∃ k, m = w.length + (k + 1) := ⟨m - w.length - 1, by omega⟩
      rw [List.length_append] at hm
      rw [List.take_length_add_append]
      refine hs _ (fun hnil => ?_) (List.take_prefix _ _)
      have hlen := congrArg List.length hnil
      rw [List.length_take, List.length_nil] at hlen
      omega

end

section
variable {rules : List (τ × RegularExpression α)} {tag : τ} {P : RegularExpression α}
  {s w : List α} {n : Nat}

/-- The first rule for a text is the head of the list, if the text is a word of it, or one of the
tail. -/
theorem firstRule_cons : firstRule ((tag, P) :: rules) w =
    if P.rmatch w then some tag else firstRule rules w := by
  unfold firstRule
  rw [List.find?_cons]
  cases P.rmatch w <;> rfl

/-- The choice of the rule comes to a longest word, and to the first rule that matches it. -/
theorem best_spec (rules : List (τ × RegularExpression α)) (s : List α) :
    match best rules s with
    | some (tag, n) => LongestPrefix (fun w => firstRule rules w ≠ none) s n ∧
        firstRule rules (s.take n) = some tag
    | none => ∀ m, 0 < m → m ≤ s.length → firstRule rules (s.take m) = none := by
  induction rules with
  | nil => exact fun m _ _ => rfl
  | cons r rules ih =>
    obtain ⟨tag, P⟩ := r
    -- a longer prefix is no word of the first rule
    have hlonger : ∀ m, longest P s < m → m ≤ s.length → ¬ P.rmatch (s.take m) = true :=
      fun m hlt hm hmatch =>
        Nat.not_le.2 hlt (le_longest hm ((RegularExpression.rmatch_iff_matches' _ _).1 hmatch))
    have hword : longest P s ≠ 0 → P.rmatch (s.take (longest P s)) = true :=
      fun hne => (RegularExpression.rmatch_iff_matches' _ _).2 (take_longest hne)
    rw [best]
    cases hb : best rules s with
    | none =>
      rw [hb] at ih
      dsimp only at ih ⊢
      by_cases hzero : longest P s = 0
      · rw [if_pos hzero]
        intro m hpos hm
        rw [firstRule_cons, if_neg (hlonger m (by omega) hm)]
        exact ih m hpos hm
      · rw [if_neg hzero]
        have hfirst : firstRule ((tag, P) :: rules) (s.take (longest P s)) = some tag := by
          rw [firstRule_cons, if_pos (hword hzero)]
        refine ⟨⟨Nat.pos_of_ne_zero hzero, longest_le P s, ?_, fun m hlt hm => ?_⟩, hfirst⟩
        · rw [hfirst]
          exact Option.some_ne_none _
        · rw [firstRule_cons, if_neg (hlonger m hlt hm), ih m (by omega) hm]
          exact not_not.2 rfl
    | some t =>
      obtain ⟨tag', k⟩ := t
      rw [hb] at ih
      dsimp only at ih ⊢
      obtain ⟨hlong, hfirst'⟩ := ih
      by_cases hlt : longest P s < k
      · rw [if_pos hlt]
        have hfirst : firstRule ((tag, P) :: rules) (s.take k) = some tag' := by
          rw [firstRule_cons, if_neg (hlonger k hlt hlong.le), hfirst']
        refine ⟨⟨hlong.pos, hlong.le, ?_, fun m hm hle => ?_⟩, hfirst⟩
        · rw [hfirst]
          exact Option.some_ne_none _
        · rw [firstRule_cons, if_neg (hlonger m (by omega) hle)]
          exact hlong.longest m hm hle
      · rw [if_neg hlt]
        have hpos := hlong.pos
        have hzero : longest P s ≠ 0 := by omega
        have hfirst : firstRule ((tag, P) :: rules) (s.take (longest P s)) = some tag := by
          rw [firstRule_cons, if_pos (hword hzero)]
        refine ⟨⟨Nat.pos_of_ne_zero hzero, longest_le P s, ?_, fun m hm hle => ?_⟩, hfirst⟩
        · rw [hfirst]
          exact Option.some_ne_none _
        · rw [firstRule_cons, if_neg (hlonger m hm hle)]
          exact hlong.longest m (by omega) hle

/-- **The next token** is the longest prefix that has a label. -/
theorem tokens_of_longest {label : List α → Option (Option τ)} (hlabels : Labels rules label)
    (h : LongestPrefix (fun w => label w ≠ none) s n) {t : Option τ}
    (ht : label (s.take n) = some t) :
    tokens rules s = (t, s.take n) :: tokens rules (s.drop n) := by
  obtain ⟨hpos, hle, -, hmax⟩ := h
  obtain ⟨c, v, rfl⟩ : ∃ c v, s = c :: v := by
    cases s with
    | nil => exact absurd hle (by simpa using hpos.ne')
    | cons c v => exact ⟨c, v, rfl⟩
  have hne : ∀ m, 0 < m → (c :: v).take m ≠ [] := by
    intro m hm
    obtain ⟨k, rfl⟩ := Nat.exists_eq_succ_of_ne_zero hm.ne'
    exact List.cons_ne_nil _ _
  have hlen : ∀ m, m ≤ (c :: v).length → ((c :: v).take m).length = m :=
    fun m hm => List.length_take_of_le hm
  have hspec := best_spec rules (c :: v)
  rw [tokens]
  cases hb : best rules (c :: v) with
  | none =>
    -- no rule matches, and one character has a label
    rw [hb] at hspec
    dsimp only at hspec ⊢
    have hlabel := hlabels _ (hne n hpos)
    rw [hspec n hpos hle, ht] at hlabel
    dsimp only at hlabel
    rw [hlen n hle] at hlabel
    by_cases hone : n = 1
    · subst hone
      rw [if_pos rfl] at hlabel
      cases hlabel
      rfl
    · rw [if_neg hone] at hlabel
      cases hlabel
  | some r =>
    obtain ⟨tag', k⟩ := r
    rw [hb] at hspec
    dsimp only at hspec ⊢
    obtain ⟨hlong, hfirst⟩ := hspec
    have hlabel : label ((c :: v).take k) = some (some tag') := by
      rw [hlabels _ (hne k hlong.pos), hfirst]
    have hnk : n = k := by
      rcases Nat.lt_trichotomy n k with hlt | heq | hgt
      · refine absurd ?_ (hmax k hlt hlong.le)
        rw [hlabel]
        exact Option.some_ne_none _
      · exact heq
      · -- a longer labelled word would be one of a rule
        have hnone : firstRule rules ((c :: v).take n) = none :=
          not_not.1 (hlong.longest n hgt hle)
        have hlabel' := hlabels _ (hne n hpos)
        have hone : ¬ n = 1 := by
          have := hlong.pos
          omega
        rw [hnone, ht] at hlabel'
        dsimp only at hlabel'
        rw [hlen n hle, if_neg hone] at hlabel'
        cases hlabel'
    subst hnk
    rw [hlabel] at ht
    cases ht
    obtain ⟨j, rfl⟩ := Nat.exists_eq_succ_of_ne_zero hpos.ne'
    rfl

end

end Lexer
