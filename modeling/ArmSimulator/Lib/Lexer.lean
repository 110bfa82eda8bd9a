import Mathlib.Computability.RegularExpressions
import Mathlib.Data.Nat.Find

/-!
# Lexers by the longest match

A lexer is a list of rules, each a tag with a regular expression. At each position the rule with the
longest match makes the token, the first one of those with equally long matches; where no rule
matches, one character is passed through, as a token without a tag. `tokens_append` says when a word
in front of other input is a token of its own: for the rule of a prefix-free language, no more is
needed than that the rules before it match no more than it does (`best_eq`). `tokens_boundary` cuts
the input at a character that no word contains after its beginning.
-/

namespace Lexer

variable {α τ : Type}

/-! ## Expressions -/

/-- One of the characters. -/
def oneOf (cs : List α) : RegularExpression α := (cs.map .char).sum

/-- The words of `oneOf` are its characters. -/
theorem mem_oneOf {cs w : List α} : w ∈ (oneOf cs).matches' ↔ ∃ c ∈ cs, w = [c] := by
  induction cs with
  | nil => simp [oneOf, Language.notMem_zero]
  | cons c cs ih =>
    rw [oneOf, List.map_cons, List.sum_cons, RegularExpression.matches'_add, Language.mem_add]
    rw [← oneOf, ih, RegularExpression.matches'_char]
    simp only [List.mem_cons, exists_eq_or_imp]
    rfl

/-- The words of such characters are matched, and no others. -/
theorem mem_star_oneOf {cs w : List α} : w ∈ (oneOf cs).star.matches' ↔ ∀ c ∈ w, c ∈ cs := by
  rw [RegularExpression.matches'_star, Language.mem_kstar]
  constructor
  · rintro ⟨L, rfl, hL⟩ c hc
    obtain ⟨u, hu, hcu⟩ := List.mem_flatten.1 hc
    obtain ⟨d, hd, rfl⟩ := mem_oneOf.1 (hL u hu)
    rw [List.mem_singleton.1 hcu]
    exact hd
  · intro h
    refine ⟨w.map fun c => [c], ?_, fun u hu => ?_⟩
    · induction w with
      | nil => rfl
      | cons c w ih =>
        rw [List.map_cons, List.flatten_cons, ← ih fun d hd => h d (List.mem_cons_of_mem c hd)]
        rfl
    · obtain ⟨c, hc, rfl⟩ := List.mem_map.1 hu
      exact mem_oneOf.2 ⟨c, h c hc, rfl⟩

/-- No word is a proper prefix of another. -/
def PrefixFree (L : Language α) : Prop := ∀ u ∈ L, ∀ v ∈ L, u <+: v → u = v

variable [DecidableEq α]

/-! ## The longest match -/

/-- The length of the longest prefix that the expression matches; 0 where it matches none. -/
def longest (P : RegularExpression α) (s : List α) : Nat :=
  Nat.findGreatest (fun n => P.rmatch (s.take n) = true) s.length

section
variable {P : RegularExpression α} {s w : List α}

/-- A length is that of the longest match if it is one of a match, or 0, and none is longer. -/
theorem longest_eq {n : Nat} (hn : n ≤ s.length) (hm : n ≠ 0 → s.take n ∈ P.matches')
    (hmax : ∀ m, n < m → m ≤ s.length → s.take m ∉ P.matches') : longest P s = n := by
  rw [longest, Nat.findGreatest_eq_iff]
  simp only [RegularExpression.rmatch_iff_matches']
  exact ⟨hn, hm, hmax⟩

/-- What is matched is in the input. -/
theorem longest_le (P : RegularExpression α) (s : List α) : longest P s ≤ s.length :=
  Nat.findGreatest_le _

/-- No match is longer. -/
theorem le_longest {n : Nat} (hn : n ≤ s.length)
    (hm : s.take n ∈ P.matches') : n ≤ longest P s :=
  Nat.le_findGreatest hn ((RegularExpression.rmatch_iff_matches' _ _).2 hm)

/-- The longest match is a word of the expression. -/
theorem take_longest (h : longest P s ≠ 0) : s.take (longest P s) ∈ P.matches' :=
  (RegularExpression.rmatch_iff_matches' _ _).1 (Nat.findGreatest_of_ne_zero rfl h)

/-- The match of a prefix-free language. -/
theorem longest_append (hP : PrefixFree P.matches') (hw : w ∈ P.matches') (s : List α) :
    longest P (w ++ s) = w.length := by
  refine longest_eq ?_ (fun _ => ?_) fun m hlt hm hmem => ?_
  · rw [List.length_append]
    exact Nat.le_add_right _ _
  · rw [List.take_left]
    exact hw
  · have hpre : w <+: (w ++ s).take m := by
      rw [List.take_append, List.take_of_length_le (Nat.le_of_lt hlt)]
      exact List.prefix_append _ _
    have hlen := congrArg List.length (hP w hw _ hmem hpre)
    rw [List.length_take, Nat.min_eq_left hm] at hlen
    exact absurd hlen (Nat.ne_of_lt hlt)

/-- An expression for single characters matches at most one. -/
theorem longest_le_one (hP : ∀ u ∈ P.matches', u.length = 1) (s : List α) : longest P s ≤ 1 := by
  by_cases h : longest P s = 0
  · omega
  · have hlen := hP _ (take_longest h)
    rw [List.length_take, Nat.min_eq_left (longest_le P s)] at hlen
    omega

/-- An expression whose words begin with other characters matches nothing. -/
theorem longest_eq_zero {c : α} (hP : ∀ u ∈ P.matches', u ≠ [] → u.head? ≠ some c) (s : List α) :
    longest P (c :: s) = 0 := by
  by_contra h
  obtain ⟨k, hk⟩ := Nat.exists_eq_succ_of_ne_zero h
  have hmem := take_longest h
  rw [hk, List.take_succ_cons] at hmem
  exact hP _ hmem (List.cons_ne_nil _ _) rfl

end

/-! ## The rules -/

/-- The rule with the longest match, the first one of those, and the length. -/
def best : List (τ × RegularExpression α) → List α → Option (τ × Nat)
  | [], _ => none
  | (tag, P) :: rules, s =>
    match best rules s with
    | some (tag', m) => if longest P s < m then some (tag', m) else some (tag, longest P s)
    | none => if longest P s = 0 then none else some (tag, longest P s)

/-- The tokens of the input, in order, each with its text. -/
def tokens (rules : List (τ × RegularExpression α)) : List α → List (Option τ × List α)
  | [] => []
  | c :: s =>
    match best rules (c :: s) with
    | some (tag, n) => (some tag, c :: s.take (n - 1)) :: tokens rules (s.drop (n - 1))
    | none => (none, [c]) :: tokens rules s
termination_by s => s.length
decreasing_by
  · rw [List.length_drop, List.length_cons]
    omega
  · exact Nat.lt_succ_self s.length

section
variable {rules rules' : List (τ × RegularExpression α)} {tag : τ} {P : RegularExpression α}
  {s w : List α}

/-- No rule has a longer match than all of them. -/
theorem best_le {n : Nat} (h : ∀ r ∈ rules, longest r.2 s ≤ n) :
    ∀ t ∈ best rules s, t.2 ≤ n := by
  induction rules with
  | nil => simp [best]
  | cons r rules ih =>
    obtain ⟨tag, P⟩ := r
    have hP : longest P s ≤ n := h (tag, P) List.mem_cons_self
    have hrest := ih fun r hr => h r (List.mem_cons_of_mem _ hr)
    rw [best]
    cases hb : best rules s with
    | none =>
      dsimp only
      split_ifs
      · simp
      · simpa using hP
    | some t =>
      obtain ⟨tag', m⟩ := t
      rw [hb] at hrest
      dsimp only
      split_ifs
      · exact hrest
      · simpa using hP

/-- The rule that is chosen matches more than those before it, and no less than those after it. -/
theorem best_eq {n : Nat} (hP : longest P s = n) (hn : n ≠ 0)
    (hbefore : ∀ r ∈ rules, longest r.2 s < n) (hafter : ∀ r ∈ rules', longest r.2 s ≤ n) :
    best (rules ++ (tag, P) :: rules') s = some (tag, n) := by
  induction rules with
  | nil =>
    have hle := best_le hafter
    rw [List.nil_append, best, hP]
    cases hb : best rules' s with
    | none => exact if_neg hn
    | some t =>
      rw [hb] at hle
      exact if_neg (Nat.not_lt.2 (hle t rfl))
  | cons r rules ih =>
    rw [List.cons_append, best, ih fun r hr => hbefore r (List.mem_cons_of_mem _ hr)]
    exact if_pos (hbefore r List.mem_cons_self)

/-- The rule that is chosen has a match. -/
theorem best_some {n : Nat} (h : best rules s = some (tag, n)) :
    n ≠ 0 ∧ ∃ P, (tag, P) ∈ rules ∧ longest P s = n := by
  induction rules generalizing tag n with
  | nil => exact absurd h (Option.some_ne_none _).symm
  | cons r rules ih =>
    obtain ⟨tag', P⟩ := r
    rw [best] at h
    cases hb : best rules s with
    | none =>
      rw [hb] at h
      dsimp only at h
      split_ifs at h with hzero
      cases h
      exact ⟨hzero, P, List.mem_cons_self, rfl⟩
    | some t =>
      obtain ⟨hm, Q, hQ, hlongest⟩ := ih hb
      rw [hb] at h
      dsimp only at h
      split_ifs at h with hlt
      · cases h
        exact ⟨hm, Q, List.mem_cons_of_mem _ hQ, hlongest⟩
      · cases h
        exact ⟨by omega, P, List.mem_cons_self, rfl⟩

/-- A word that is chosen in front of the rest of the input is a token. -/
theorem tokens_append (hw : w ≠ []) (h : best rules (w ++ s) = some (tag, w.length)) :
    tokens rules (w ++ s) = (some tag, w) :: tokens rules s := by
  obtain ⟨c, v, rfl⟩ := List.exists_cons_of_ne_nil hw
  rw [List.cons_append] at h ⊢
  rw [tokens, h]
  simp

/-- The text of a token is a word of its rule. -/
theorem mem_tokens (h : (some tag, w) ∈ tokens rules s) :
    ∃ P, (tag, P) ∈ rules ∧ w ∈ P.matches' := by
  fun_induction tokens rules s with
  | case1 => exact absurd h List.not_mem_nil
  | case2 c s tag' n hbest ih =>
    rcases List.mem_cons.1 h with he | h
    · cases he
      obtain ⟨hn, P, hP, rfl⟩ := best_some hbest
      obtain ⟨k, hk⟩ := Nat.exists_eq_succ_of_ne_zero hn
      refine ⟨P, hP, ?_⟩
      have hmem := take_longest hn
      rw [hk, List.take_succ_cons] at hmem
      rw [hk]
      exact hmem
    · exact ih h
  | case3 c s hbest ih =>
    rcases List.mem_cons.1 h with he | h
    · cases he
    · exact ih h

end

/-! ## Boundaries -/

/-- The character stands in no word of the expression, except at its beginning. -/
def OnlyFirst (c : α) (P : RegularExpression α) : Prop := ∀ w ∈ P.matches', c ∉ w.tail

section
variable {rules : List (τ × RegularExpression α)} {P : RegularExpression α} {b c : α}

/-- No match goes past the place before such a character. -/
theorem OnlyFirst.longest_append (h : OnlyFirst c P) (b : α) (g s : List α) :
    longest P (b :: g ++ c :: s) = longest P (b :: g) := by
  have htake : ∀ n ≤ (b :: g).length, (b :: g ++ c :: s).take n = (b :: g).take n :=
    fun n hn => List.take_append_of_le_length hn
  have hle := longest_le P (b :: g)
  refine longest_eq ?_ (fun hn => ?_) fun m hlt hm hmem => ?_
  · rw [List.length_append]
    exact Nat.le_add_right_of_le hle
  · rw [htake _ hle]
    exact take_longest hn
  · by_cases hin : m ≤ (b :: g).length
    · rw [htake m hin] at hmem
      exact absurd (le_longest hin hmem) (Nat.not_le.2 hlt)
    · -- a longer match contains the character
      obtain ⟨k, rfl⟩ : ∃ k, m = (b :: g).length + (k + 1) := ⟨m - (b :: g).length - 1, by omega⟩
      rw [List.take_length_add_append, List.take_succ_cons] at hmem
      exact h _ hmem (List.mem_append_right g List.mem_cons_self)

/-- No rule matches past the place before a character that only begins words. -/
theorem best_append (h : ∀ r ∈ rules, OnlyFirst c r.2) (b : α) (g s : List α) :
    best rules (b :: g ++ c :: s) = best rules (b :: g) := by
  induction rules with
  | nil => rfl
  | cons r rules ih =>
    obtain ⟨tag, P⟩ := r
    have hP : OnlyFirst c P := h (tag, P) List.mem_cons_self
    rw [best, best, ih fun r hr => h r (List.mem_cons_of_mem _ hr), hP.longest_append]

/-- **Boundaries.** Where a character stands in no word except at its beginning, the tokens are
those before it and those from it on. -/
theorem tokens_boundary (h : ∀ r ∈ rules, OnlyFirst c r.2) (g s : List α) :
    tokens rules (g ++ c :: s) = tokens rules g ++ tokens rules (c :: s) := by
  fun_induction tokens rules g with
  | case1 => rfl
  | case2 b g tag n hbest ih =>
    obtain ⟨-, P, -, hlongest⟩ := best_some hbest
    have hn : n - 1 ≤ g.length := by
      have := longest_le P (b :: g)
      rw [hlongest, List.length_cons] at this
      omega
    have hbest' : best rules (b :: (g ++ c :: s)) = some (tag, n) :=
      (best_append h b g s).trans hbest
    rw [List.cons_append, tokens, hbest']
    dsimp only
    rw [List.take_append_of_le_length hn, List.drop_append_of_le_length hn, ih, List.cons_append]
  | case3 b g hbest ih =>
    have hbest' : best rules (b :: (g ++ c :: s)) = none := (best_append h b g s).trans hbest
    rw [List.cons_append, tokens, hbest']
    dsimp only
    rw [ih, List.cons_append]

end

end Lexer
