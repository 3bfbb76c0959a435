/-
Texts as lists of characters, with the operations of Python's strings that the
formats use: splitting, stripping, numerals in a base, and UTF-8.
-/
import Mathlib.Data.List.Basic
import Mathlib.Data.List.DropRight
import Mathlib.Data.List.TakeWhile
import CatKV.ByteString

namespace CatKV

open List

abbrev Text := List Char

/-! Splitting. -/

/-- `text.split(separator, 1)` when it gives two parts. -/
def splitOnce (separator : Char) (text : Text) : Option (Text × Text) :=
  match text.dropWhile (· != separator) with
  | [] => none
  | _ :: rest => some (text.takeWhile (· != separator), rest)

theorem splitOnce_append {separator : Char} {first : Text} (hfirst : separator ∉ first)
    (rest : Text) : splitOnce separator (first ++ separator :: rest) = some (first, rest) := by
  have hkept : ∀ letter ∈ first, (letter != separator) = true := by
    intro letter hletter
    rw [bne_iff_ne]
    rintro rfl
    exact hfirst hletter
  rw [splitOnce, dropWhile_append_of_pos hkept, takeWhile_append_of_pos hkept,
    dropWhile_cons_of_neg (by simp), takeWhile_cons_of_neg (by simp), append_nil]

variable {text : Text}

theorem splitOnce_eq_some {separator : Char} {first rest : Text}
    (hsplit : splitOnce separator text = some (first, rest)) :
    text = first ++ separator :: rest ∧ separator ∉ first := by
  unfold splitOnce at hsplit
  split at hsplit
  · cases hsplit
  · next head tail hdrop =>
    cases hsplit
    have hhead : head = separator := by
      have hnot := head?_dropWhile_not (· != separator) text
      rw [hdrop] at hnot
      simpa using hnot
    constructor
    · nth_rewrite 2 [← hhead]
      rw [← hdrop]
      exact takeWhile_append_dropWhile.symm
    · intro hmem
      have hne := mem_takeWhile_imp hmem
      simp at hne

theorem not_mem_of_mem_splitOn {α : Type*} [BEq α] [LawfulBEq α] {separator : α}
    {text part : List α} (hpart : part ∈ text.splitOn separator) : separator ∉ part := by
  induction text generalizing part with
  | nil =>
    rw [splitOn_nil, mem_singleton] at hpart
    rw [hpart]
    exact not_mem_nil
  | cons letter rest ih =>
    rw [splitOn_cons_eq_if_modifyHead] at hpart
    split at hpart
    · rcases mem_cons.mp hpart with rfl | hrest
      · exact not_mem_nil
      · exact ih hrest
    · next hne =>
      have hother : separator ≠ letter := by
        rintro rfl
        simp at hne
      cases hsplit : rest.splitOn separator with
      | nil => exact absurd hsplit (splitOn_ne_nil _ _)
      | cons head tail =>
        rw [hsplit] at hpart ih
        rcases mem_cons.mp hpart with rfl | htail
        · intro hmem
          rcases mem_cons.mp hmem with heq | hin
          · exact hother heq
          · exact ih mem_cons_self hin
        · exact ih (mem_cons_of_mem _ htail)

/-! Stripping. -/

/-- `str.isspace`, for one character. -/
def isSpace (letter : Char) : Bool :=
  let code := letter.toNat
  (9 ≤ code && code ≤ 13) || (28 ≤ code && code ≤ 32) || code == 133 ||
    code == 160 || code == 5760 || (8192 ≤ code && code ≤ 8202) ||
    code == 8232 || code == 8233 || code == 8239 || code == 8287 ||
    code == 12288

def lstrip (text : Text) : Text := text.dropWhile isSpace

def rstrip (text : Text) : Text := text.rdropWhile isSpace

def strip (text : Text) : Text := rstrip (lstrip text)

/-! Numerals. -/

/-- The zeros of the decimal digits of Unicode, each followed by the others. -/
def decimalZeros : List Nat :=
  [0x30, 0x660, 0x6F0, 0x7C0, 0x966, 0x9E6, 0xA66, 0xAE6, 0xB66, 0xBE6, 0xC66,
    0xCE6, 0xD66, 0xDE6, 0xE50, 0xED0, 0xF20, 0x1040, 0x1090, 0x17E0, 0x1810,
    0x1946, 0x19D0, 0x1A80, 0x1A90, 0x1B50, 0x1BB0, 0x1C40, 0x1C50, 0xA620,
    0xA8D0, 0xA900, 0xA9D0, 0xA9F0, 0xAA50, 0xABF0, 0xFF10, 0x104A0, 0x10D30,
    0x11066, 0x110F0, 0x11136, 0x111D0, 0x112F0, 0x11450, 0x114D0, 0x11650,
    0x116C0, 0x11730, 0x118E0, 0x11950, 0x11C50, 0x11D50, 0x11DA0, 0x11F50,
    0x16A60, 0x16AC0, 0x16B50, 0x1D7CE, 0x1D7D8, 0x1D7E2, 0x1D7EC, 0x1D7F6,
    0x1E140, 0x1E2F0, 0x1E4F0, 0x1E950, 0x1FBF0]

def digitOf (letter : Char) : Option Nat :=
  let code := letter.toNat
  if 97 ≤ code ∧ code ≤ 122 then some (code - 87)
  else if 65 ≤ code ∧ code ≤ 90 then some (code - 55)
  else (decimalZeros.find? fun first => first ≤ code && code < first + 10).map
    fun first => code - first

def digitBelow (base : Nat) (letter : Char) : Option Nat :=
  (digitOf letter).filter (decide <| · < base)

/-- More digits after a value, with single underscores between them. -/
def digitsFrom (base : Nat) : Nat → Text → Option Nat
  | value, [] => some value
  | value, '_' :: next :: rest =>
    (digitBelow base next).bind fun digit =>
      digitsFrom base (base * value + digit) rest
  | value, letter :: rest =>
    (digitBelow base letter).bind fun digit =>
      digitsFrom base (base * value + digit) rest

/-- `0x` in front of the digits. -/
def dropBase (base : Nat) (text : Text) : Text :=
  if base = 16 then
    match text with
    | '0' :: 'x' :: '_' :: rest | '0' :: 'X' :: '_' :: rest => rest
    | '0' :: 'x' :: rest | '0' :: 'X' :: rest => rest
    | _ => text
  else text

def parseNat (base : Nat) (text : Text) : Option Nat :=
  match dropBase base text with
  | [] => none
  | letter :: rest => (digitBelow base letter).bind fun digit =>
    digitsFrom base digit rest

/-- `int(text, base)`. -/
def parseInt (base : Nat) (text : Text) : Option Int :=
  match strip text with
  | '-' :: rest =>
    (parseNat base rest).map fun value : Nat => -(value : Int)
  | '+' :: rest => (parseNat base rest).map Int.ofNat
  | digits => (parseNat base digits).map Int.ofNat

/-- The numeral of an integer, as `str` and the format `x` write it. -/
def intText (base : Nat) : Int → Text
  | .ofNat value => Nat.toDigits base value
  | .negSucc value => '-' :: Nat.toDigits base (value + 1)

theorem digitOf_digitChar {digit : Nat} (hdigit : digit < 16) :
    digitOf (Nat.digitChar digit) = some digit := by
  revert digit
  decide

variable {base : Nat}

theorem digitBelow_digitChar {digit : Nat} (hbase : base ≤ 16) (hdigit : digit < base) :
    digitBelow base (Nat.digitChar digit) = some digit := by
  rw [digitBelow, digitOf_digitChar (by omega), Option.filter_some]
  simp [hdigit]

/-- Digits as the numerals have them. -/
def IsDigits (base : Nat) (text : Text) : Prop :=
  ∀ letter ∈ text, ∃ digit < base, letter = Nat.digitChar digit

theorem isDigits_toDigits (hbase : 1 < base) (value : Nat) :
    IsDigits base (Nat.toDigits base value) := by
  induction value using Nat.strongRecOn with
  | ind value ih =>
    by_cases hsmall : value < base
    · rw [Nat.toDigits_of_lt_base hsmall]
      intro letter hletter
      exact ⟨value, hsmall, mem_singleton.mp hletter⟩
    · have hpos : 0 < value / base := Nat.div_pos (Nat.le_of_not_lt hsmall) (by omega)
      have hmod := Nat.mod_lt value (show 0 < base by omega)
      rw [← Nat.div_add_mod value base, ← Nat.toDigits_append_toDigits hbase hpos hmod,
        Nat.toDigits_of_lt_base hmod]
      intro letter hletter
      rcases mem_append.mp hletter with hinit | hlast
      · exact ih (value / base) (Nat.div_lt_self (by omega) hbase) letter hinit
      · exact ⟨_, hmod, mem_singleton.mp hlast⟩

theorem digitsFrom_cons {digit : Nat} (hbase : base ≤ 16)
    (hdigit : digit < base) (value : Nat) (rest : Text) :
    digitsFrom base value (Nat.digitChar digit :: rest) =
      digitsFrom base (base * value + digit) rest := by
  have hplain : ∀ digit < 16, Nat.digitChar digit ≠ '_' := by decide
  have hne := hplain digit (by omega)
  rw [digitsFrom, digitBelow_digitChar hbase hdigit]
  · rfl
  · intro next after heq
    exact absurd heq hne

/-- Reading digits, most significant first. -/
def digitsValueFrom (base value : Nat) (text : Text) : Nat :=
  text.foldl (fun value letter => base * value + (digitOf letter).getD 0) value

theorem digitsFrom_eq (hbase : base ≤ 16) (hdigits : IsDigits base text) (value : Nat) :
    digitsFrom base value text = some (digitsValueFrom base value text) := by
  induction text generalizing value with
  | nil => rfl
  | cons letter rest ih =>
    obtain ⟨digit, hdigit, rfl⟩ := hdigits letter mem_cons_self
    rw [digitsFrom_cons hbase hdigit, digitsValueFrom, foldl_cons, digitOf_digitChar (by omega)]
    exact ih (fun other hother => hdigits other (mem_cons_of_mem _ hother)) _

theorem digitsValueFrom_toDigits (hbase : 1 < base) (hle : base ≤ 16) (value : Nat) :
    digitsValueFrom base 0 (Nat.toDigits base value) = value := by
  induction value using Nat.strongRecOn with
  | ind value ih =>
    by_cases hsmall : value < base
    · rw [Nat.toDigits_of_lt_base hsmall, digitsValueFrom, foldl_cons, digitOf_digitChar (by omega)]
      simp
    · have hpos : 0 < value / base := Nat.div_pos (Nat.le_of_not_lt hsmall) (by omega)
      have hmod := Nat.mod_lt value (show 0 < base by omega)
      have hinit := ih (value / base) (Nat.div_lt_self (by omega) hbase)
      rw [digitsValueFrom] at hinit
      nth_rewrite 1 [← Nat.div_add_mod value base]
      rw [← Nat.toDigits_append_toDigits hbase hpos hmod, Nat.toDigits_of_lt_base hmod,
        digitsValueFrom, foldl_append, hinit, foldl_cons, digitOf_digitChar (by omega)]
      exact Nat.div_add_mod value base

theorem dropBase_of_isDigits (hbase : base ≤ 16) (hdigits : IsDigits base text) :
    dropBase base text = text := by
  have hplain : ∀ digit < 16, Nat.digitChar digit ≠ 'x' ∧ Nat.digitChar digit ≠ 'X' := by decide
  have hletter : ∀ letter ∈ text, letter ≠ 'x' ∧ letter ≠ 'X' := by
    intro letter hmem
    obtain ⟨digit, hdigit, rfl⟩ := hdigits letter hmem
    exact hplain digit (by omega)
  unfold dropBase
  split
  · split
    · exact absurd rfl (hletter 'x' (by simp)).1
    · exact absurd rfl (hletter 'X' (by simp)).2
    · exact absurd rfl (hletter 'x' (by simp)).1
    · exact absurd rfl (hletter 'X' (by simp)).2
    · rfl
  · rfl

theorem parseNat_of_isDigits (hbase : base ≤ 16) (hdigits : IsDigits base text) (hne : text ≠ []) :
    parseNat base text = some (digitsValueFrom base 0 text) := by
  rw [parseNat, dropBase_of_isDigits hbase hdigits]
  cases text with
  | nil => exact absurd rfl hne
  | cons letter rest =>
    obtain ⟨digit, hdigit, rfl⟩ := hdigits letter mem_cons_self
    have hrest : IsDigits base rest := fun other hother =>
      hdigits other (mem_cons_of_mem _ hother)
    dsimp only
    rw [digitBelow_digitChar hbase hdigit, Option.bind_some, digitsFrom_eq hbase hrest,
      digitsValueFrom, digitsValueFrom, foldl_cons, digitOf_digitChar (by omega)]
    simp

theorem strip_of_no_space (hspace : ∀ letter ∈ text, isSpace letter = false) :
    strip text = text := by
  have hleft : lstrip text = text := by
    rw [lstrip, dropWhile_eq_self_iff]
    intro hlength
    simpa using hspace _ (getElem_mem hlength)
  rw [strip, hleft, rstrip, rdropWhile_eq_self_iff]
  intro hne
  simpa using hspace _ (getLast_mem hne)

/-- A sign and digits. -/
def IsNumeral (base : Nat) (text : Text) : Prop :=
  ∀ letter ∈ text, letter = '-' ∨ ∃ digit < base, letter = Nat.digitChar digit

theorem isNumeral_intText (hbase : 1 < base) (value : Int) :
    IsNumeral base (intText base value) := by
  cases value with
  | ofNat value =>
    intro letter hletter
    exact Or.inr (isDigits_toDigits hbase value letter hletter)
  | negSucc value =>
    intro letter hletter
    rcases mem_cons.mp hletter with rfl | hrest
    · exact Or.inl rfl
    · exact Or.inr (isDigits_toDigits hbase _ letter hrest)

theorem not_mem_of_isNumeral (hbase : base ≤ 16)
    (hnumeral : IsNumeral base text) {letter : Char} (hminus : letter ≠ '-')
    (hdigit : ∀ digit < 16, letter ≠ Nat.digitChar digit) : letter ∉ text := by
  intro hmem
  rcases hnumeral letter hmem with hsign | ⟨digit, hlt, heq⟩
  · exact hminus hsign
  · exact hdigit digit (by omega) heq

theorem strip_of_isNumeral (hbase : base ≤ 16) (hnumeral : IsNumeral base text) :
    strip text = text := by
  have hplain : ∀ digit < 16, isSpace (Nat.digitChar digit) = false := by
    decide
  apply strip_of_no_space
  intro letter hletter
  rcases hnumeral letter hletter with rfl | ⟨digit, hdigit, rfl⟩
  · decide
  · exact hplain digit (by omega)

theorem parseInt_of_isDigits (hbase : base ≤ 16) (hdigits : IsDigits base text) :
    parseInt base text = (parseNat base text).map Int.ofNat := by
  have hstrip : strip text = text :=
    strip_of_isNumeral hbase fun letter hletter =>
      Or.inr (hdigits letter hletter)
  have hplain : ∀ digit < 16, Nat.digitChar digit ≠ '-' ∧ Nat.digitChar digit ≠ '+' := by decide
  have hsign : ∀ letter ∈ text, letter ≠ '-' ∧ letter ≠ '+' := by
    intro letter hletter
    obtain ⟨digit, hdigit, rfl⟩ := hdigits letter hletter
    exact hplain digit (by omega)
  rw [parseInt, hstrip]
  split
  · exact absurd rfl (hsign '-' mem_cons_self).1
  · exact absurd rfl (hsign '+' mem_cons_self).2
  · rfl

theorem parseInt_minus (hbase : base ≤ 16) (hdigits : IsDigits base text) :
    parseInt base ('-' :: text) = (parseNat base text).map fun value : Nat => -(value : Int) := by
  have hstrip : strip ('-' :: text) = '-' :: text := by
    apply strip_of_isNumeral hbase
    intro letter hletter
    rcases mem_cons.mp hletter with rfl | hrest
    · exact Or.inl rfl
    · exact Or.inr (hdigits letter hrest)
  rw [parseInt, hstrip]
  rfl

theorem parseInt_intText (hbase : 1 < base) (hle : base ≤ 16) (value : Int) :
    parseInt base (intText base value) = some value := by
  have hparse : ∀ value, parseNat base (Nat.toDigits base value) = some value := by
    intro value
    rw [parseNat_of_isDigits hle (isDigits_toDigits hbase value)
      Nat.toDigits_ne_nil, digitsValueFrom_toDigits hbase hle]
  cases value with
  | ofNat value =>
    rw [intText, parseInt_of_isDigits hle (isDigits_toDigits hbase value), hparse]
    rfl
  | negSucc value =>
    rw [intText, parseInt_minus hle (isDigits_toDigits hbase _), hparse]
    rfl

/-! A numeral that has been cut short has another value. -/

theorem digitsValueFrom_split (hbase : 1 < base) (hle : base ≤ 16) {value : Nat}
    {cut : Text} (hcut : cut <+: Nat.toDigits base value) :
    digitsValueFrom base 0 cut ≤ value ∧ (cut ≠ [] → cut ≠ Nat.toDigits base value →
        digitsValueFrom base 0 cut < value) := by
  induction value using Nat.strongRecOn with
  | ind value ih =>
    by_cases hwhole : cut = Nat.toDigits base value
    · rw [hwhole, digitsValueFrom_toDigits hbase hle]
      exact ⟨Nat.le_refl _, fun _ hne => absurd rfl hne⟩
    · by_cases hsmall : value < base
      · rw [Nat.toDigits_of_lt_base hsmall] at hcut hwhole
        have hnil : cut = [] := by
          rcases prefix_cons_iff.mp hcut with hnil | ⟨rest, rfl, hrest⟩
          · exact hnil
          · rw [prefix_nil.mp hrest] at hwhole
            exact absurd rfl hwhole
        rw [hnil]
        exact ⟨Nat.zero_le _, fun hne => absurd rfl hne⟩
      · have hpos : 0 < value / base := Nat.div_pos (Nat.le_of_not_lt hsmall) (by omega)
        have hmod := Nat.mod_lt value (show 0 < base by omega)
        have hdiv : value / base < value := Nat.div_lt_self (by omega) hbase
        have hdigits : Nat.toDigits base value = Nat.toDigits base (value / base) ++
              [Nat.digitChar (value % base)] := by
          nth_rewrite 1 [← Nat.div_add_mod value base]
          rw [← Nat.toDigits_append_toDigits hbase hpos hmod, Nat.toDigits_of_lt_base hmod]
        rw [hdigits] at hcut hwhole
        have hinit := (prefix_concat_iff.mp hcut).resolve_left hwhole
        have hbound := (ih _ hdiv hinit).1
        exact ⟨by omega, fun _ _ => by omega⟩

theorem eq_toDigits_of_cut (hbase : 1 < base) (hle : base ≤ 16) {value : Nat} {cut : Text}
    (hcut : cut <+: Nat.toDigits base value) (hparse : parseNat base cut = some value) :
    cut = Nat.toDigits base value := by
  have hdigits : IsDigits base cut := fun letter hletter =>
    isDigits_toDigits hbase value letter (hcut.subset hletter)
  have hne : cut ≠ [] := by
    rintro rfl
    rw [parseNat, dropBase_of_isDigits hle hdigits] at hparse
    cases hparse
  rw [parseNat_of_isDigits hle hdigits hne] at hparse
  by_contra hother
  have hlt := (digitsValueFrom_split hbase hle hcut).2 hne hother
  have hvalue := Option.some.inj hparse
  omega

theorem eq_intText_of_prefix (hbase : 1 < base) (hle : base ≤ 16) {value : Int}
    {cut : Text} (hcut : cut <+: intText base value)
    (hparse : parseInt base cut = some value) : cut = intText base value := by
  cases value with
  | ofNat value =>
    rw [intText] at hcut ⊢
    have hdigits : IsDigits base cut := fun letter hletter =>
      isDigits_toDigits hbase value letter (hcut.subset hletter)
    rw [parseInt_of_isDigits hle hdigits] at hparse
    obtain ⟨found, hfound, heq⟩ := Option.map_eq_some_iff.mp hparse
    cases heq
    exact eq_toDigits_of_cut hbase hle hcut hfound
  | negSucc value =>
    rw [intText] at hcut ⊢
    rcases prefix_cons_iff.mp hcut with rfl | ⟨rest, rfl, hrest⟩
    · have hdigits : IsDigits base [] := fun letter hletter =>
        absurd hletter not_mem_nil
      rw [parseInt_of_isDigits hle hdigits, parseNat, dropBase_of_isDigits hle hdigits] at hparse
      cases hparse
    · have hdigits : IsDigits base rest := fun letter hletter =>
        isDigits_toDigits hbase _ letter (hrest.subset hletter)
      rw [parseInt_minus hle hdigits] at hparse
      obtain ⟨found, hfound, heq⟩ := Option.map_eq_some_iff.mp hparse
      have hsame : -(found : Int) = -((value : Int) + 1) := heq
      obtain rfl : found = value + 1 := by omega
      rw [eq_toDigits_of_cut hbase hle hrest hfound]

/-! UTF-8. -/

/-- `text.encode()`. -/
def encodeText (text : Text) : Bytes := text.flatMap String.utf8EncodeChar

/-- `bytes.decode()`. -/
def decodeText (bytes : Bytes) : Option Text := bytes.toByteArray.utf8Decode?.map Array.toList

theorem toByteArray_encodeText (text : Text) :
    (encodeText text).toByteArray = text.utf8Encode := rfl

@[simp]
theorem encodeText_append (first rest : Text) :
    encodeText (first ++ rest) = encodeText first ++ encodeText rest :=
  flatMap_append

theorem decodeText_encodeText (text : Text) : decodeText (encodeText text) = some text := by
  rw [decodeText, toByteArray_encodeText, utf8Decode?_utf8Encode]
  rfl

theorem eq_encodeText_of_decodeText {bytes : Bytes}
    (hdecode : decodeText bytes = some text) : bytes = encodeText text := by
  obtain ⟨letters, hletters, rfl⟩ := Option.map_eq_some_iff.mp hdecode
  have hget := @ByteArray.utf8Encode_get_utf8Decode? bytes.toByteArray (by rw [hletters]; rfl)
  simp only [hletters, Option.get_some] at hget
  rw [← toByteArray_inj, toByteArray_encodeText]
  exact hget.symm

theorem prefix_of_encodeText_append {first second : Text} {rest : Bytes}
    (heq : encodeText first ++ rest = encodeText second) : first <+: second := by
  apply isPrefix_of_utf8Encode_append_eq_utf8Encode rest.toByteArray
  rw [← toByteArray_encodeText, ← toByteArray_encodeText, ← heq, toByteArray_append]

end CatKV
