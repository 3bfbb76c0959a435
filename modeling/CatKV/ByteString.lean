/-
Byte strings: fixed-width little-endian fields, decimal numerals and the last
occurrence of a marker.  Nothing here mentions object names or tensors; the
naming and codec modules instantiate these operations.
-/
import Mathlib.Data.List.Basic
import Mathlib.Data.List.TakeWhile
import Mathlib.Tactic.Ring

namespace CatKV

open List

/-- A `std::string`: a finite sequence of bytes. -/
abbrev Bytes := List UInt8

/-- Named once, so that no definition that tests membership carries its own copy of the proof that
equality of byte strings is lawful. -/
instance Bytes.decidableMem (text : Bytes) (texts : List Bytes) : Decidable (text ∈ texts) :=
  inferInstance

def charByte (letter : Char) : UInt8 := UInt8.ofNat letter.toNat

/-- The bytes of an ASCII literal. -/
def ascii (text : String) : Bytes := text.toList.map charByte

/-- `width` little-endian bytes of `value`; higher bytes are dropped. -/
def leBytes : Nat → Nat → Bytes
  | 0, _ => []
  | width + 1, value => UInt8.ofNat value :: leBytes width (value / 256)

/-- The unsigned number spelled by little-endian bytes. -/
def leValue : Bytes → Nat
  | [] => 0
  | byte :: rest => byte.toNat + 256 * leValue rest

@[simp] theorem leBytes_length (width value : Nat) : (leBytes width value).length = width := by
  induction width generalizing value with
  | zero => rfl
  | succ width ih => simp [leBytes, ih]

theorem leValue_leBytes (width value : Nat) :
    leValue (leBytes width value) = value % 256 ^ width := by
  induction width generalizing value with
  | zero => simp [leBytes, leValue, Nat.mod_one]
  | succ width ih =>
    have hsplit : value % 256 ^ (width + 1) = value % 256 + 256 * (value / 256 % 256 ^ width) := by
      rw [Nat.pow_succ', Nat.mod_mul]
    simp only [leBytes, leValue, ih, UInt8.toNat_ofNat', hsplit]

theorem leValue_leBytes_of_lt {width value : Nat} (hlt : value < 256 ^ width) :
    leValue (leBytes width value) = value := by
  rw [leValue_leBytes, Nat.mod_eq_of_lt hlt]

theorem leValue_lt (bytes : Bytes) : leValue bytes < 256 ^ bytes.length := by
  induction bytes with
  | nil => simp [leValue]
  | cons byte rest ih =>
    have hbyte : byte.toNat < 256 := byte.toNat_lt
    simp only [leValue, length_cons, Nat.pow_succ']
    omega

theorem leBytes_leValue (bytes : Bytes) : leBytes bytes.length (leValue bytes) = bytes := by
  induction bytes with
  | nil => rfl
  | cons byte rest ih =>
    have hbyte : byte.toNat < 256 := byte.toNat_lt
    have hlow : UInt8.ofNat (byte.toNat + 256 * leValue rest) = byte := by
      apply UInt8.toNat_inj.mp
      rw [UInt8.toNat_ofNat']
      omega
    have hhigh : (byte.toNat + 256 * leValue rest) / 256 = leValue rest := by
      omega
    simp only [length_cons, leBytes, leValue, hlow, hhigh, ih]

/-! Decimal numerals. -/

def isDigitByte (byte : UInt8) : Bool := 48 ≤ byte && byte ≤ 57

/-- `std::to_string` of a non-negative integer. -/
def decimal (value : Nat) : Bytes := (Nat.toDigits 10 value).map charByte

/-- `std::to_string` of a signed integer. -/
def decimalInt : Int → Bytes
  | .ofNat value => decimal value
  | .negSucc value => charByte '-' :: decimal (value + 1)

/-- The number spelled by decimal digits, most significant first. -/
def digitsValue (digits : Bytes) : Nat :=
  digits.foldl (fun value byte => 10 * value + (byte.toNat - 48)) 0

theorem charByte_toNat_of_isDigit {letter : Char} (hdigit : letter.isDigit) :
    (charByte letter).toNat = letter.toNat := by
  simp only [Char.isDigit, Bool.and_eq_true, decide_eq_true_eq, UInt32.le_iff_toNat_le] at hdigit
  have hupper : letter.toNat ≤ 57 := hdigit.2
  rw [charByte, UInt8.toNat_ofNat']
  omega

theorem isDigitByte_charByte {letter : Char} (hdigit : letter.isDigit) :
    isDigitByte (charByte letter) = true := by
  have htoNat := charByte_toNat_of_isDigit hdigit
  simp only [Char.isDigit, Bool.and_eq_true, decide_eq_true_eq, UInt32.le_iff_toNat_le] at hdigit
  have hlower : 48 ≤ letter.toNat := hdigit.1
  have hupper : letter.toNat ≤ 57 := hdigit.2
  simp only [isDigitByte, Bool.and_eq_true, decide_eq_true_eq, UInt8.le_iff_toNat_le, htoNat]
  exact ⟨hlower, hupper⟩

theorem isDigitByte_of_mem_decimal {value : Nat} {byte : UInt8}
    (hmem : byte ∈ decimal value) : isDigitByte byte = true := by
  simp only [decimal, mem_map] at hmem
  obtain ⟨letter, hletter, rfl⟩ := hmem
  exact isDigitByte_charByte (Nat.isDigit_of_mem_toDigits (by decide) (by decide) hletter)

theorem decimal_ne_nil (value : Nat) : decimal value ≠ [] := by
  simp [decimal, Nat.toDigits_ne_nil]

theorem digitsValue_decimal (value : Nat) : digitsValue (decimal value) = value := by
  have hfold : ∀ (letters : List Char) (start : Nat), (∀ letter ∈ letters, letter.isDigit) →
      (letters.map charByte).foldl (fun value byte => 10 * value + (byte.toNat - 48)) start =
        Nat.ofDigitChars 10 letters start := by
    intro letters
    induction letters with
    | nil => simp [Nat.ofDigitChars]
    | cons letter letters ih =>
      intro start hdigits
      have hletter := charByte_toNat_of_isDigit (hdigits letter mem_cons_self)
      simp only [map_cons, foldl_cons, hletter]
      rw [ih _ fun next hnext => hdigits next (mem_cons_of_mem _ hnext)]
      simp only [Nat.ofDigitChars, foldl_cons]
      rfl
  rw [digitsValue, decimal, hfold _ 0 fun letter hletter =>
    Nat.isDigit_of_mem_toDigits (by decide) (by decide) hletter]
  exact Nat.ofDigitChars_ten_toDigits

theorem decimal_injective : Function.Injective decimal := by
  intro left right heq
  rw [← digitsValue_decimal left, heq, digitsValue_decimal]

theorem decimalInt_ne_nil (value : Int) : decimalInt value ≠ [] := by
  cases value with
  | ofNat value => exact decimal_ne_nil value
  | negSucc value => simp [decimalInt]

theorem not_minus_mem_decimal (value : Nat) : charByte '-' ∉ decimal value := by
  intro hmem
  have := isDigitByte_of_mem_decimal hmem
  revert this
  decide

theorem decimalInt_injective : Function.Injective decimalInt := by
  intro left right heq
  cases left with
  | ofNat left =>
    cases right with
    | ofNat right => exact congrArg Int.ofNat (decimal_injective heq)
    | negSucc right =>
      refine absurd ?_ (not_minus_mem_decimal left)
      rw [show decimal left = charByte '-' :: decimal (right + 1) from heq]
      exact mem_cons_self
  | negSucc left =>
    cases right with
    | ofNat right =>
      refine absurd ?_ (not_minus_mem_decimal right)
      rw [show decimal right = charByte '-' :: decimal (left + 1) from
        heq.symm]
      exact mem_cons_self
    | negSucc right =>
      simp only [decimalInt, List.cons.injEq, true_and] at heq
      have := decimal_injective heq
      simp only [Int.negSucc.injEq]
      omega

theorem not_mem_decimalInt {byte : UInt8} (hdigit : isDigitByte byte = false)
    (hminus : byte ≠ charByte '-') (value : Int) : byte ∉ decimalInt value := by
  have hnat : ∀ value : Nat, byte ∉ decimal value := by
    intro value hmem
    simp [isDigitByte_of_mem_decimal hmem] at hdigit
  cases value with
  | ofNat value => exact hnat value
  | negSucc value =>
    simp only [decimalInt, mem_cons, not_or]
    exact ⟨hminus, hnat (value + 1)⟩

/-! The last occurrence of a marker, as `std::string::rfind` finds it. -/

def rfind (marker : Bytes) : Bytes → Option Nat
  | [] => if marker = [] then some 0 else none
  | byte :: rest =>
    match rfind marker rest with
    | some position => some (position + 1)
    | none => if marker.isPrefixOf (byte :: rest) then some 0 else none

theorem rfind_eq_none_of_head_not_mem {head : UInt8} {marker text : Bytes}
    (hnot : head ∉ text) : rfind (head :: marker) text = none := by
  induction text with
  | nil => rfl
  | cons byte rest ih =>
    simp only [mem_cons, not_or] at hnot
    have hpre : (head :: marker).isPrefixOf (byte :: rest) = false := by
      simp [isPrefixOf_cons_cons, hnot.1]
    simp only [rfind, ih hnot.2, hpre, Bool.false_eq_true, ↓reduceIte]

theorem rfind_append {head : UInt8} {marker : Bytes} (before after : Bytes)
    (hlast : rfind (head :: marker) (marker ++ after) = none) :
    rfind (head :: marker) (before ++ (head :: marker) ++ after) = some before.length := by
  induction before with
  | nil =>
    have hpre : (head :: marker).isPrefixOf (head :: (marker ++ after)) = true := by
      rw [ isPrefixOf_iff_prefix]
      exact prefix_append (head :: marker) after
    change rfind (head :: marker) (head :: (marker ++ after)) = some 0
    simp only [rfind, hlast, hpre, ↓reduceIte]
  | cons byte before ih =>
    change rfind (head :: marker)
      (byte :: (before ++ (head :: marker) ++ after)) = some (before.length + 1)
    simp only [rfind, ih]

/-- The directory part of a path, its last slash included; empty without one. -/
def directoryOf (path : Bytes) : Bytes :=
  (path.reverse.dropWhile (fun byte => byte != charByte '/')).reverse

theorem directoryOf_append_of_not_mem (directory name : Bytes) (hslash : charByte '/' ∉ name) :
    directoryOf (directory ++ [charByte '/'] ++ name) = directory ++ [charByte '/'] := by
  have hdrop : (name.reverse ++ ([charByte '/'] ++ directory.reverse)).dropWhile
      (fun byte => byte != charByte '/') = [charByte '/'] ++ directory.reverse := by
    rw [dropWhile_append_of_pos]
    · simp
    · intro byte hbyte
      have hne : byte ≠ charByte '/' := by
        rintro rfl
        exact hslash (mem_reverse.mp hbyte)
      simpa using hne
  rw [directoryOf]
  simp only [reverse_append, reverse_singleton, append_assoc]
  rw [hdrop]
  simp

end CatKV
