import Mathlib.Data.Bool.Basic

/-!
# Escaped texts

Some characters of a text are replaced by two: an escape character, and the character mapped by an
involution `flip`. `decode n` reads `n` characters of the original text back, whatever follows them;
it has no result where the escaped text ends before. `decode_encode` is the round trip, for any set
of replaced characters that contains the escape character.
-/

namespace Escape

variable {α : Type} [DecidableEq α] (esc : α) (flip : α → α)

/-- The text with the characters of `special` escaped. -/
def encode (special : α → Bool) (text : List α) : List α :=
  text.flatMap fun c => if special c then [esc, flip c] else [c]

/-- The first `n` characters of the original text. -/
def decode : Nat → List α → Option (List α)
  | 0, _ => some []
  | _ + 1, [] => none
  | n + 1, c :: s =>
    if c = esc then
      match s with
      | [] => none
      | d :: s => (decode n s).map (flip d :: ·)
    else (decode n s).map (c :: ·)

section
variable {esc flip}

omit [DecidableEq α] in
/-- A text is encoded part by part. -/
theorem encode_append (special : α → Bool) (text text' : List α) :
    encode esc flip special (text ++ text') =
      encode esc flip special text ++ encode esc flip special text' :=
  List.flatMap_append

/-- A character that does not escape another is decoded to itself. -/
theorem decode_of_ne {c : α} (h : c ≠ esc) (n : Nat) (s : List α) :
    decode esc flip (n + 1) (c :: s) = (decode esc flip n s).map (c :: ·) :=
  if_neg h

/-- A character that is escaped is decoded to the flipped one. -/
theorem decode_escaped (n : Nat) (d : α) (s : List α) :
    decode esc flip (n + 1) (esc :: d :: s) = (decode esc flip n s).map (flip d :: ·) :=
  if_pos rfl

/-- A text does not end with the character that escapes. -/
theorem decode_esc_nil (n : Nat) : decode esc flip (n + 1) [esc] = none :=
  if_pos rfl

/-- **The round trip.** What is decoded from an encoded text is the text. -/
theorem decode_encode {special : α → Bool} (hflip : ∀ c, flip (flip c) = c)
    (hesc : special esc = true) (text s : List α) :
    decode esc flip text.length (encode esc flip special text ++ s) = some text := by
  induction text with
  | nil => rfl
  | cons c text ih =>
    have hencode : encode esc flip special (c :: text) ++ s =
        (if special c then [esc, flip c] else [c]) ++ (encode esc flip special text ++ s) := by
      rw [encode, List.flatMap_cons, List.append_assoc]
      rfl
    rw [hencode, List.length_cons]
    by_cases hc : special c = true
    · rw [if_pos hc, List.cons_append, List.singleton_append, decode_escaped, ih, hflip]
      rfl
    · have hne : c ≠ esc := fun he => hc (he ▸ hesc)
      rw [if_neg hc, List.singleton_append, decode_of_ne hne, ih]
      rfl

/-- Fewer characters are a prefix. -/
theorem decode_encode_take {special : α → Bool} (hflip : ∀ c, flip (flip c) = c)
    (hesc : special esc = true) {n : Nat} {text : List α} (hn : n ≤ text.length) (s : List α) :
    decode esc flip n (encode esc flip special text ++ s) = some (text.take n) := by
  have hlen : (text.take n).length = n := by rw [List.length_take, Nat.min_eq_left hn]
  have h := decode_encode hflip hesc (text.take n)
    (encode esc flip special (text.drop n) ++ s)
  rwa [hlen, ← List.append_assoc, ← encode_append, List.take_append_drop] at h

end

end Escape
