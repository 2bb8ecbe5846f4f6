import Mathlib.Data.List.Basic
import Mathlib.Data.List.Infix

/-!
# Texts with delimiters

A text is a list of its bytes (or of anything else).  `cut` divides it at the first
occurrence of a delimiter; what was put together with a delimiter whose first byte is
not in the part before it is taken apart again (`cut_append`).  `toDecimal` writes a
number, `ofDecimal` reads one, and `lowerCase` folds the letters of ASCII.
-/

namespace Text

variable {α : Type*} [DecidableEq α]

/-- What stands before and after the first `sep`; `none` if there is no `sep`. -/
def cut (sep : List α) : List α → Option (List α × List α)
  | [] => if sep = [] then some ([], []) else none
  | a :: rest =>
      if sep.isPrefixOf (a :: rest) then some ([], (a :: rest).drop sep.length)
      else (cut sep rest).map fun parts => (a :: parts.1, parts.2)

/-- A delimiter that begins the text. -/
theorem cut_self (sep rest : List α) (hsep : sep ≠ []) : cut sep (sep ++ rest) = some ([], rest) := by
  obtain ⟨a, tail, rfl⟩ := List.exists_cons_of_ne_nil hsep
  have hprefix : (a :: tail).isPrefixOf (a :: (tail ++ rest)) = true := by
    rw [List.isPrefixOf_iff_prefix]
    exact List.prefix_append (a :: tail) rest
  rw [List.cons_append, cut, if_pos hprefix, ← List.cons_append, List.drop_left]

/-- **Taking apart.**  The first byte of the delimiter is not in `first`, so no occurrence
of the delimiter begins there. -/
theorem cut_append {c : α} {tail first : List α} (hfirst : c ∉ first) (rest : List α) :
    cut (c :: tail) (first ++ (c :: tail ++ rest)) = some (first, rest) := by
  induction first with
  | nil => exact cut_self _ _ (List.cons_ne_nil _ _)
  | cons a first ih =>
      rw [List.mem_cons, not_or] at hfirst
      rw [List.cons_append, cut, if_neg, ih hfirst.2]
      · rfl
      · simp [List.isPrefixOf, hfirst.1]

theorem cut_eq_none {c : α} {tail text : List α} (h : c ∉ text) : cut (c :: tail) text = none := by
  induction text with
  | nil => rfl
  | cons a rest ih =>
      rw [List.mem_cons, not_or] at h
      rw [cut, if_neg, ih h.2]
      · rfl
      · simp [List.isPrefixOf, h.1]

/-- Behind a delimiter there is less text. -/
theorem length_snd_of_cut {sep text : List α} {parts : List α × List α} (hsep : sep ≠ [])
    (h : cut sep text = some parts) : parts.2.length < text.length := by
  induction text generalizing parts with
  | nil =>
      rw [cut, if_neg hsep] at h
      cases h
  | cons a rest ih =>
      have hpos : 0 < sep.length := List.length_pos_of_ne_nil hsep
      rw [cut] at h
      split at h
      · obtain rfl := Option.some.inj h
        simp only [List.length_drop, List.length_cons]
        omega
      · obtain ⟨found, hfound, rfl⟩ := Option.map_eq_some_iff.mp h
        have hlt := ih hfound
        simp only [List.length_cons]
        omega

/-! ## Numbers and letters -/

/-- The decimal representation. -/
def toDecimal (n : ℕ) : List UInt8 := (Nat.toDigits 10 n).map Char.toUInt8

def isDigit (c : UInt8) : Bool := 48 ≤ c.toNat && c.toNat ≤ 57

def ofDecimal (digits : List UInt8) : Option ℕ :=
  if digits ≠ [] ∧ digits.all isDigit then
    some (digits.foldl (fun n c => 10 * n + (c.toNat - 48)) 0)
  else none

theorem toNat_toUInt8_of_isDigit {c : Char} (h : c.isDigit = true) :
    c.toUInt8.toNat = c.toNat ∧ 48 ≤ c.toNat ∧ c.toNat ≤ 57 := by
  have hbounds : 48 ≤ c.toNat ∧ c.toNat ≤ 57 := Char.isDigit_iff_toNat.mp h
  refine ⟨?_, hbounds⟩
  show c.toNat % 256 = c.toNat
  exact Nat.mod_eq_of_lt (by omega)

theorem isDigit_of_mem_toDecimal {n : ℕ} {c : UInt8} (h : c ∈ toDecimal n) : isDigit c = true := by
  obtain ⟨digit, hdigit, rfl⟩ := List.mem_map.mp h
  have hbounds := toNat_toUInt8_of_isDigit
    (Nat.isDigit_of_mem_toDigits (by decide) (by decide) hdigit)
  simp only [isDigit, Bool.and_eq_true, decide_eq_true_eq]
  omega

theorem ofDecimal_toDecimal (n : ℕ) : ofDecimal (toDecimal n) = some n := by
  have hne : toDecimal n ≠ [] := by simp [toDecimal, Nat.toDigits_ne_nil]
  have hdigits : (toDecimal n).all isDigit = true :=
    List.all_eq_true.mpr fun c hc => isDigit_of_mem_toDecimal hc
  rw [ofDecimal, if_pos ⟨hne, hdigits⟩, toDecimal, List.foldl_map]
  -- The fold over the bytes is the one over the characters that Lean has for its numerals.
  have hfold (digits : List Char) (start : ℕ) (h : ∀ c ∈ digits, c.isDigit = true) :
      digits.foldl (fun n c => 10 * n + (c.toUInt8.toNat - 48)) start =
        Nat.ofDigitChars 10 digits start := by
    induction digits generalizing start with
    | nil => rfl
    | cons c rest ih =>
        rw [List.foldl_cons, (toNat_toUInt8_of_isDigit (h c List.mem_cons_self)).1,
          Nat.ofDigitChars_cons]
        exact ih _ fun other hother => h other (List.mem_cons_of_mem _ hother)
  rw [hfold _ _ fun c hc => Nat.isDigit_of_mem_toDigits (by decide) (by decide) hc,
    Nat.ofDigitChars_ten_toDigits]

/-- A letter of ASCII in lower case, another byte as it is. -/
def lowerCase (text : List UInt8) : List UInt8 :=
  text.map fun c => if 65 ≤ c.toNat ∧ c.toNat ≤ 90 then c + 32 else c

theorem toNat_add_of_upper {c : UInt8} (h : 65 ≤ c.toNat ∧ c.toNat ≤ 90) :
    (c + 32).toNat = c.toNat + 32 := by
  rw [UInt8.toNat_add]
  exact Nat.mod_eq_of_lt (by simp; omega)

theorem lowerCase_lowerCase (text : List UInt8) : lowerCase (lowerCase text) = lowerCase text := by
  rw [lowerCase, lowerCase, List.map_map]
  refine List.map_congr_left fun c _ => ?_
  simp only [Function.comp_apply]
  by_cases hupper : 65 ≤ c.toNat ∧ c.toNat ≤ 90
  · have hlower := toNat_add_of_upper hupper
    rw [if_pos hupper, if_neg]
    omega
  · rw [if_neg hupper, if_neg hupper]

theorem lowerCase_append (first second : List UInt8) :
    lowerCase (first ++ second) = lowerCase first ++ lowerCase second := List.map_append

end Text
