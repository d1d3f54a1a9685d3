import Mathlib

/-!
# Strings of the C and C++ libraries

A `std::string` is a list of characters, one a byte; the classification functions of
`<cctype>` are those of the C locale, which is the one the programs run in.
-/

namespace Csf

/-- A `std::string`: its bytes. -/
abbrev Str := List Char

/-- `std::isspace` in the C locale. -/
def isspace (c : Char) : Bool :=
  c == ' ' || c == '\t' || c == '\n' || c == '\x0b' || c == '\x0c' || c == '\r'

theorem not_isspace_of_isDigit {c : Char} (h : c.isDigit = true) : isspace c = false := by
  by_contra hc
  rw [Bool.not_eq_false, isspace] at hc
  simp only [Bool.or_eq_true, beq_iff_eq] at hc
  obtain ((((rfl | rfl) | rfl) | rfl) | rfl) | rfl := hc <;> exact absurd h (by decide)

/-- The number denoted by a string of decimal digits. -/
def digitsVal (ds : Str) : ℕ := ds.foldl (fun n d => 10 * n + (d.toNat - '0'.toNat)) 0

/-- `std::isxdigit` -/
def isxdigit (c : Char) : Bool :=
  c.isDigit || ('a' ≤ c && c ≤ 'f') || ('A' ≤ c && c ≤ 'F')

/-- The value of a hexadecimal digit. -/
def xdigitVal (c : Char) : ℕ :=
  if c.isDigit then c.toNat - '0'.toNat
  else if 'a' ≤ c then c.toNat - 'a'.toNat + 10
  else c.toNat - 'A'.toNat + 10

/-- The number denoted by a string of hexadecimal digits. -/
def xdigitsVal (ds : Str) : ℕ := ds.foldl (fun n d => 16 * n + xdigitVal d) 0

theorem not_isspace_of_isxdigit {c : Char} (h : isxdigit c = true) : isspace c = false := by
  by_contra hc
  rw [Bool.not_eq_false, isspace] at hc
  simp only [Bool.or_eq_true, beq_iff_eq] at hc
  obtain ((((rfl | rfl) | rfl) | rfl) | rfl) | rfl := hc <;> exact absurd h (by decide)

/-- The next character that is not white space, as `>>` and the `" %c"` of `scanf` read it. -/
def readChar (s : Str) : Option (Char × Str) :=
  match s.dropWhile isspace with
  | [] => none
  | c :: rest => some (c, rest)

theorem length_of_readChar {s rest : Str} {c : Char} (h : readChar s = some (c, rest)) :
    rest.length < s.length := by
  have hle := List.length_dropWhile_le isspace s
  rw [readChar] at h
  split at h
  · cases h
  · rename_i c rest heq
    cases h
    rw [heq, List.length_cons] at hle
    omega

theorem readChar_cons {c : Char} (hc : isspace c = false) (s : Str) :
    readChar (c :: s) = some (c, s) := by
  rw [readChar, List.dropWhile_cons_of_neg (by simp [hc])]

end Csf
