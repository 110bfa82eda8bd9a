import ArmSimulator.Constants
import Mathlib.Algebra.Ring.Int.Defs
import Mathlib.Algebra.Ring.Nat

/-!
# `snprintf`, `sscanf` and `atoi`: numbers in texts

A C string is the list of its bytes, without the NUL that ends it; an array of characters that
holds strings is a list with the NULs in it. A `long` has 64 bits.
-/

namespace ArmSimulator

namespace Ascii

abbrev nul : Byte := 0x00
abbrev newline : Byte := 0x0A
abbrev hash : Byte := 0x23
abbrev dollar : Byte := 0x24
abbrev plus : Byte := 0x2B
abbrev comma : Byte := 0x2C
abbrev minus : Byte := 0x2D
abbrev colon : Byte := 0x3A
abbrev equals : Byte := 0x3D

/-- The character `}`, which announces an escaped byte. -/
abbrev escape : Byte := 0x7D

/-- The code of a character. -/
abbrev of (c : Char) : Byte := BitVec.ofNat 8 c.toNat

end Ascii

/-- The string at the beginning of an array. -/
def cString (s : List Byte) : List Byte := s.takeWhile fun b => b ≠ Ascii.nul

/-- A string of the source. -/
def ascii (s : String) : List Byte := s.toList.map Ascii.of

/-- The text of a string is that of its characters. -/
theorem ascii_ofList (l : List Char) : ascii (String.ofList l) = l.map Ascii.of := by
  rw [ascii, String.toList_ofList]

/-- The text of a string is as long as the string. -/
theorem length_ascii (l : List Char) : (ascii (String.ofList l)).length = l.length := by
  rw [ascii_ofList, List.length_map]

/-- `isspace`. -/
def isSpace (c : Byte) : Bool := c = 0x20 || (0x09 ≤ c && c ≤ 0x0D)

/-- `isxdigit`. -/
def isHexDigit (c : Byte) : Bool :=
  (0x30 ≤ c && c ≤ 0x39) || (0x41 ≤ c && c ≤ 0x46) || (0x61 ≤ c && c ≤ 0x66)

/-- The value of a hexadecimal digit. -/
def hexValue (c : Byte) : Nat :=
  if c ≤ 0x39 then c.toNat - 0x30 else if c ≤ 0x46 then c.toNat - 0x37 else c.toNat - 0x57

/-- The lower-case hexadecimal digit of a value below 16. -/
def hexDigit (value : Nat) : Byte :=
  BitVec.ofNat 8 (if value < 10 then 0x30 + value else 0x57 + value)

/-- The conversions `%02x` and `%08x` of a value that has no more digits than that. -/
def formatHex (digits value : Nat) : List Byte :=
  (List.range digits).map fun k => hexDigit (value / 16 ^ (digits - 1 - k) % 16)

/-- The conversion `%02X`. -/
def formatHexUpper (digits value : Nat) : List Byte :=
  (formatHex digits value).map fun c => if 0x61 ≤ c then c - 0x20 else c

/-- An optional sign; whether it is negative, and what follows it. -/
def scanSign (s : List Byte) : Bool × List Byte :=
  if s.head? = some Ascii.minus then (true, s.tail)
  else if s.head? = some Ascii.plus then (false, s.tail)
  else (false, s)

/-- What follows an optional `0x`. -/
def scanPrefix (s : List Byte) : List Byte :=
  if s.head? = some 0x30 ∧ (s[1]? = some 0x78 ∨ s[1]? = some 0x58) then s.drop 2 else s

/-- The number that hexadecimal digits denote. -/
def hexNumber (digits : List Byte) : Nat :=
  digits.foldl (fun value c => value * 16 + hexValue c) 0

/-- What `strtoul` makes of a number: all bits are set where it does not fit. -/
def unsignedLong (negative : Bool) (value : Nat) : BitVec 64 :=
  if 2 ^ 64 ≤ value then BitVec.allOnes 64
  else if negative then -BitVec.ofNat 64 value else BitVec.ofNat 64 value

/-- The conversion `%x` into an `unsigned int`: the number, and what follows it; `none` where there
is none, and then nothing is assigned. A `0x` without a digit behind it is no number, as ISO C has
it; glibc reads the `0` of it and assigns 0. -/
def scanHex (s : List Byte) : Option (Word × List Byte) :=
  let (negative, s) := scanSign (s.dropWhile isSpace)
  let s := scanPrefix s
  let digits := s.takeWhile isHexDigit
  if digits = [] then none
  else some ((unsignedLong negative (hexNumber digits)).setWidth 32, s.drop digits.length)

/-- The conversion `%08x`: of eight characters at most. -/
def scanHexEight (s : List Byte) : Option Word :=
  (scanHex ((s.dropWhile isSpace).take 8)).map Prod.fst

/-- At most `n` conversions `%x` with commas between them: the numbers that are assigned. They end
at a `0x` without a digit, where glibc would assign 0. -/
def scanHexes : Nat → List Byte → List Word
  | 0, _ => []
  | n + 1, s =>
    match scanHex s with
    | none => []
    | some (value, s) =>
      value :: if s.head? = some Ascii.comma then scanHexes n s.tail else []

/-- `isdigit`. -/
def isDigit (c : Byte) : Bool := 0x30 ≤ c && c ≤ 0x39

/-- `atoi`, which is the `long` of `strtol`, the nearest one where the number does not fit, as an
`int`. -/
def atoi (s : List Byte) : Word :=
  let (negative, s) := scanSign (s.dropWhile isSpace)
  let value : Nat := (s.takeWhile isDigit).foldl (fun value c => value * 10 + (c.toNat - 0x30)) 0
  let number : Int := if negative then max (-value) (-2 ^ 63) else min value (2 ^ 63 - 1)
  BitVec.ofInt 32 number

/-! ## Digits -/

section
variable {c : Byte}

/-- What holds of the 256 bytes holds of every byte. -/
theorem forall_byte {P : Byte → Prop} (h : ∀ n < 256, P (BitVec.ofNat 8 n)) (c : Byte) : P c := by
  have hc := h c.toNat c.isLt
  rwa [BitVec.ofNat_toNat, BitVec.setWidth_eq] at hc

/-- The value of a digit is below 16. -/
theorem hexValue_lt (h : isHexDigit c = true) : hexValue c < 16 := by
  have hall : ∀ n < 256, isHexDigit (BitVec.ofNat 8 n) = true →
      hexValue (BitVec.ofNat 8 n) < 16 := by
    decide +kernel
  exact forall_byte (P := fun c => isHexDigit c = true → hexValue c < 16) hall c h

/-- What `hexDigit` writes is a digit. -/
theorem isHexDigit_hexDigit {value : Nat} (h : value < 16) :
    isHexDigit (hexDigit value) = true := by
  have hall : ∀ value < 16, isHexDigit (hexDigit value) = true := by decide
  exact hall value h

/-- What `hexDigit` writes has the value that was written. -/
theorem hexValue_hexDigit {value : Nat} (h : value < 16) : hexValue (hexDigit value) = value := by
  have hall : ∀ value < 16, hexValue (hexDigit value) = value := by decide
  exact hall value h

/-- A digit is none of the characters that `scanHex` skips before the digits. -/
theorem isHexDigit_ne (h : isHexDigit c = true) :
    isSpace c = false ∧ c ≠ Ascii.minus ∧ c ≠ Ascii.plus ∧ c ≠ 0x78 ∧ c ≠ 0x58 := by
  have hall : ∀ n < 256, isHexDigit (BitVec.ofNat 8 n) = true →
      isSpace (BitVec.ofNat 8 n) = false ∧ BitVec.ofNat 8 n ≠ Ascii.minus ∧
        BitVec.ofNat 8 n ≠ Ascii.plus ∧ BitVec.ofNat 8 n ≠ 0x78 ∧ BitVec.ofNat 8 n ≠ 0x58 := by
    decide +kernel
  exact forall_byte (P := fun c => isHexDigit c = true → isSpace c = false ∧ c ≠ Ascii.minus ∧
    c ≠ Ascii.plus ∧ c ≠ 0x78 ∧ c ≠ 0x58) hall c h

end

/-- A digit that is appended to a number multiplies it by 16 and is added. -/
theorem hexNumber_concat (digits : List Byte) (c : Byte) :
    hexNumber (digits ++ [c]) = hexNumber digits * 16 + hexValue c := by
  rw [hexNumber, List.foldl_append]
  rfl

/-! ## Texts of numbers -/

/-- `%x` writes nothing but digits. -/
theorem isHexDigit_formatHex {digits value : Nat} {c : Byte} (h : c ∈ formatHex digits value) :
    isHexDigit c = true := by
  obtain ⟨k, -, rfl⟩ := List.mem_map.1 h
  exact isHexDigit_hexDigit (Nat.mod_lt _ (by decide))

/-- `%0nx` writes n digits. -/
theorem length_formatHex (digits value : Nat) : (formatHex digits value).length = digits := by
  rw [formatHex, List.length_map, List.length_range]

/-- The last digit of a number is the one of lowest value. -/
theorem formatHex_succ (digits value : Nat) :
    formatHex (digits + 1) value = formatHex digits (value / 16) ++ [hexDigit (value % 16)] := by
  rw [formatHex, List.range_succ, List.map_append, formatHex]
  congr 1
  · refine List.map_congr_left fun k hk => ?_
    have hk := List.mem_range.1 hk
    have hpow : 16 ^ (digits + 1 - 1 - k) = 16 * 16 ^ (digits - 1 - k) := by
      rw [← Nat.pow_succ']
      congr 1
      omega
    rw [hpow, Nat.div_div_eq_div_mul]
  · rw [List.map_singleton, Nat.add_sub_cancel, Nat.sub_self, Nat.pow_zero, Nat.div_one]

/-- The digits denote the number. -/
theorem hexNumber_formatHex {digits value : Nat} (h : value < 16 ^ digits) :
    hexNumber (formatHex digits value) = value := by
  induction digits generalizing value with
  | zero =>
    rw [Nat.pow_zero] at h
    obtain rfl : value = 0 := Nat.lt_one_iff.1 h
    rfl
  | succ digits ih =>
    have hdiv : value / 16 < 16 ^ digits := by
      rw [Nat.div_lt_iff_lt_mul (by decide), ← Nat.pow_succ]
      exact h
    rw [formatHex_succ, hexNumber_concat, ih hdiv, hexValue_hexDigit (Nat.mod_lt _ (by decide)),
      Nat.div_add_mod']

/-! ## Scanning -/

/-- A number that fits in 64 bits is cut to its low word. -/
theorem setWidth_unsignedLong {value : Nat} (h : value < 2 ^ 64) :
    (unsignedLong false value).setWidth 32 = BitVec.ofNat 32 value := by
  rw [unsignedLong, if_neg (Nat.not_le.2 h)]
  apply BitVec.eq_of_toNat_eq
  simp

/-- What ends the digits of a number. -/
def EndsDigits (s : List Byte) : Prop :=
  ∀ c, s.head? = some c → isHexDigit c = false ∧ c ≠ 0x78 ∧ c ≠ 0x58

/-- **Scanning digits** gives the number they denote, as an `unsigned int`, and leaves what follows
them. -/
theorem scanHex_digits {digits s : List Byte} (hne : digits ≠ [])
    (hdigits : ∀ c ∈ digits, isHexDigit c = true) (hs : EndsDigits s) :
    scanHex (digits ++ s) = some ((unsignedLong false (hexNumber digits)).setWidth 32, s) := by
  obtain ⟨c, cs, rfl⟩ := List.exists_cons_of_ne_nil hne
  obtain ⟨hspace, hminus, hplus, -, -⟩ := isHexDigit_ne (hdigits c List.mem_cons_self)
  have hskip : (c :: cs ++ s).dropWhile isSpace = c :: cs ++ s := by
    rw [List.cons_append, List.dropWhile_cons, hspace]
    rfl
  have hsign : scanSign (c :: cs ++ s) = (false, c :: cs ++ s) :=
    (if_neg fun h => hminus (Option.some.inj h)).trans
      (if_neg fun h => hplus (Option.some.inj h))
  -- the second character is a digit or what ends the digits
  have hsecond : ∀ d, (cs ++ s).head? = some d → d ≠ 0x78 ∧ d ≠ 0x58 := by
    intro d hd
    cases cs with
    | nil => exact (hs d hd).2
    | cons d' cs =>
      obtain rfl : d' = d := Option.some.inj hd
      have hd' := hdigits d' (List.mem_cons_of_mem c List.mem_cons_self)
      exact (isHexDigit_ne hd').2.2.2
  have hprefix : scanPrefix (c :: cs ++ s) = c :: cs ++ s := by
    refine if_neg fun h => ?_
    have hget : (c :: cs ++ s)[1]? = (cs ++ s).head? := by
      rw [List.cons_append, List.getElem?_cons_succ, List.head?_eq_getElem?]
    rw [hget] at h
    exact h.2.elim (fun hx => (hsecond _ hx).1 rfl) fun hx => (hsecond _ hx).2 rfl
  have htake : (c :: cs ++ s).takeWhile isHexDigit = c :: cs := by
    have hend : s.takeWhile isHexDigit = [] := by
      cases s with
      | nil => rfl
      | cons d s =>
        rw [List.takeWhile_cons, (hs d rfl).1]
        rfl
    rw [List.takeWhile_append_of_pos hdigits, hend, List.append_nil]
  simp only [scanHex, hskip, hsign, hprefix, htake, if_neg hne, List.drop_left]

/-- A text of hexadecimal digits that denotes the value. -/
structure Numeral (digits : List Byte) (value : Nat) : Prop where
  nonempty : digits ≠ []
  isHex : ∀ c ∈ digits, isHexDigit c = true
  denotes : hexNumber digits = value

section
variable {digits digits' s : List Byte} {value value' : Nat}

/-- What `%0nx` writes is a numeral for a number that fits in n digits. -/
theorem numeral_formatHex {n : Nat} (hn : 0 < n) (h : value < 16 ^ n) :
    Numeral (formatHex n value) value := by
  refine ⟨fun hnil => ?_, fun c hc => isHexDigit_formatHex hc, hexNumber_formatHex h⟩
  have hlength := length_formatHex n value
  rw [hnil] at hlength
  exact absurd hlength (Nat.ne_of_lt hn)

/-- `%x` reads a numeral that no further digit follows. -/
theorem Numeral.scanHex (h : Numeral digits value) (hv : value < 2 ^ 32) (hs : EndsDigits s) :
    scanHex (digits ++ s) = some (BitVec.ofNat 32 value, s) := by
  rw [scanHex_digits h.nonempty h.isHex hs, h.denotes, setWidth_unsignedLong (by omega)]

/-- The digits end before a character that is no digit and no `x`. -/
theorem endsDigits_cons {c : Byte} (hc : isHexDigit c = false ∧ c ≠ 0x78 ∧ c ≠ 0x58) :
    EndsDigits (c :: s) := by
  intro d hd
  obtain rfl : c = d := Option.some.inj hd
  exact hc

/-- One numeral is one number. -/
theorem Numeral.scanHexes (h : Numeral digits value) (hv : value < 2 ^ 32) (hs : EndsDigits s) :
    scanHexes 1 (digits ++ s) = [BitVec.ofNat 32 value] := by
  rw [ArmSimulator.scanHexes, h.scanHex hv hs]
  exact congrArg (_ :: ·) (ite_self _)

/-- Two numerals with a comma between them are two numbers. -/
theorem Numeral.scanHexes_pair (h : Numeral digits value) (hv : value < 2 ^ 32)
    (h' : Numeral digits' value') (hv' : value' < 2 ^ 32) (hs : EndsDigits s) :
    ArmSimulator.scanHexes 2 (digits ++ Ascii.comma :: (digits' ++ s)) =
      [BitVec.ofNat 32 value, BitVec.ofNat 32 value'] := by
  rw [ArmSimulator.scanHexes, h.scanHex hv (endsDigits_cons (by decide))]
  exact congrArg (_ :: ·) (h'.scanHexes hv' hs)

/-- `%08x` reads all of eight digits. -/
theorem Numeral.scanHexEight (h : Numeral digits value) (hv : value < 2 ^ 32)
    (hlen : digits.length = 8) : scanHexEight (digits ++ s) = some (BitVec.ofNat 32 value) := by
  have hspace : (digits ++ s).dropWhile isSpace = digits ++ s := by
    obtain ⟨c, cs, rfl⟩ := List.exists_cons_of_ne_nil h.nonempty
    rw [List.cons_append, List.dropWhile_cons, (isHexDigit_ne (h.isHex c List.mem_cons_self)).1]
    rfl
  have hscan := h.scanHex (s := []) hv fun c hc => absurd hc (Option.some_ne_none c).symm
  rw [List.append_nil] at hscan
  rw [ArmSimulator.scanHexEight, hspace, List.take_left' hlen, hscan]
  rfl

/-- None of the characters of a numeral is one that is no digit. -/
theorem Numeral.ne (h : Numeral digits value) {c : Byte} (hc : isHexDigit c = false) :
    ∀ b ∈ digits, b ≠ c := by
  rintro b hb rfl
  rw [h.isHex b hb] at hc
  cases hc

end

/-- Two digits that a NUL follows are scanned as the number they denote. -/
theorem scanHex_pair {c d : Byte} (hc : isHexDigit c = true) (hd : isHexDigit d = true)
    (s : List Byte) : scanHex (c :: d :: Ascii.nul :: s) =
      some (BitVec.ofNat 32 (hexValue c * 16 + hexValue d), Ascii.nul :: s) := by
  have hdigits : ∀ b ∈ [c, d], isHexDigit b = true := by
    simp [hc, hd]
  have hend : EndsDigits (Ascii.nul :: s) := by
    rintro b hb
    obtain rfl : Ascii.nul = b := Option.some.inj hb
    decide
  have hnumber : hexNumber [c, d] = hexValue c * 16 + hexValue d := by
    simp [hexNumber]
  have hlt : hexNumber [c, d] < 2 ^ 64 := by
    have := hexValue_lt hc
    have := hexValue_lt hd
    omega
  have h := scanHex_digits (List.cons_ne_nil c [d]) hdigits hend
  rw [setWidth_unsignedLong hlt, hnumber] at h
  exact h

end ArmSimulator
