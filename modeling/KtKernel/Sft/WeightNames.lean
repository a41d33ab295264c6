import Mathlib.Algebra.GroupWithZero.Nat
import Mathlib.Data.List.ProdSigma
import Mathlib.Data.List.TakeWhile
import KtKernel.Data.FileTree

namespace KtKernel.Sft

open KtKernel.Data

/-! The names in a tree of pre-quantised INT8 weights.

The regular expressions take a digit to be any decimal digit of Unicode, which
`int` reads as well. -/

/-- The code points of the zeros of the decimal digits beyond ASCII. -/
def otherZeros : List Nat :=
  [0x660, 0x6f0, 0x7c0, 0x966, 0x9e6, 0xa66, 0xae6, 0xb66, 0xbe6, 0xc66, 0xce6, 0xd66, 0xde6, 0xe50, 0xed0,
    0xf20, 0x1040, 0x1090, 0x17e0, 0x1810, 0x1946, 0x19d0, 0x1a80, 0x1a90, 0x1b50, 0x1bb0, 0x1c40, 0x1c50, 0xa620,
    0xa8d0, 0xa900, 0xa9d0, 0xa9f0, 0xaa50, 0xabf0, 0xff10, 0x104a0, 0x10d30, 0x11066, 0x110f0, 0x11136, 0x111d0,
    0x112f0, 0x11450, 0x114d0, 0x11650, 0x116c0, 0x11730, 0x118e0, 0x11950, 0x11c50, 0x11d50, 0x11da0, 0x16a60,
    0x16ac0, 0x16b50, 0x1d7ce, 0x1d7d8, 0x1d7e2, 0x1d7ec, 0x1d7f6, 0x1e140, 0x1e2f0, 0x1e950, 0x1fbf0]

def decimalDigit (char : Char) : Option Nat :=
  ((0x30 :: otherZeros).find? fun first => decide (first ≤ char.toNat ∧ char.toNat < first + 10)).map (char.toNat - ·)

def isDecimal (char : Char) : Bool :=
  (decimalDigit char).isSome

/-- `int` of a text of digits. -/
def intOf (text : List Char) : Nat :=
  text.foldl (fun value char => 10 * value + (decimalDigit char).getD 0) 0

/-- The text of a number as the writers build it. -/
def decimal (n : Nat) : List Char :=
  Nat.toDigits 10 n

def intText : Int → List Char
  | .ofNat n => decimal n
  | .negSucc n => '-' :: decimal (n + 1)

def layerName (index : Int) : Name :=
  "_layer_".toList ++ intText index

def numaName (index : Nat) : Name :=
  "_numa_".toList ++ decimal index

inductive Projection where
  | gate
  | up
  | down
deriving DecidableEq, Repr

def Projection.text : Projection → List Char
  | .gate => "gate".toList
  | .up => "up".toList
  | .down => "down".toList

inductive Section where
  | quant
  | scale
deriving DecidableEq, Repr

def Section.text : Section → List Char
  | .quant => "quant".toList
  | .scale => "scale".toList

/-- A part, a projection, an expert and a kind of section. -/
abbrev Identity := Nat × Projection × Nat × Section

def expectedIdentities (numaCount expertNum : Nat) : List Identity :=
  (List.range numaCount).product ([Projection.gate, .up, .down].product
    ((List.range expertNum).product [Section.quant, .scale]))

/-- The text of a relative path. -/
def posix (path : List Name) : List Char :=
  ['/'].intercalate path

def after (expected text : List Char) : Option (List Char) :=
  if expected.isPrefixOf text then some (text.drop expected.length) else none

def takeProjection (text : List Char) : Option (Projection × List Char) :=
  [Projection.gate, .up, .down].findSome? fun projection => (after projection.text text).map (projection, ·)

/-- The digits at the head of a text, of which there must be one. -/
def takeDigits (text : List Char) : Option (List Char × List Char) :=
  let digits := text.takeWhile isDecimal
  if digits = [] then none else some (digits, text.dropWhile isDecimal)

/-! ## Texts of numbers -/

theorem decimalDigit_of_isDigit (digit : char.isDigit = true) : decimalDigit char = some (char.toNat - 48) := by
  have first : decide (48 ≤ char.toNat ∧ char.toNat < 48 + 10) = true := by
    simp only [Char.isDigit, Bool.and_eq_true, decide_eq_true_eq] at digit
    obtain ⟨above, below⟩ := digit
    have low : 48 ≤ char.toNat := above
    have high : char.toNat ≤ 57 := below
    simp only [decide_eq_true_eq]
    omega
  rw [decimalDigit, List.find?_cons_of_pos (p := fun other => decide (other ≤ char.toNat ∧ char.toNat < other + 10)) first]
  rfl

theorem isDecimal_of_mem_decimal (member : char ∈ decimal n) : isDecimal char = true := by
  have digit : char.isDigit = true := Nat.isDigit_of_mem_toDigits (by decide) (by decide) member
  rw [isDecimal, decimalDigit_of_isDigit digit]
  rfl

theorem decimal_ne_nil (n : Nat) : decimal n ≠ [] :=
  Nat.toDigits_ne_nil

theorem intOf_decimal (n : Nat) : intOf (decimal n) = n := by
  have same : ∀ (text : List Char) (start : Nat), (∀ char ∈ text, char.isDigit = true) →
      text.foldl (fun value char => 10 * value + (decimalDigit char).getD 0) start = Nat.ofDigitChars 10 text start := by
    intro text
    induction text with
    | nil => exact fun _ _ => rfl
    | cons char text rest =>
        intro start digits
        have digit := decimalDigit_of_isDigit (digits char List.mem_cons_self)
        rw [List.foldl_cons, digit, Nat.ofDigitChars_cons]
        exact rest _ fun other member => digits other (List.mem_cons_of_mem _ member)
  have digits : ∀ char ∈ decimal n, char.isDigit = true := fun char member =>
    Nat.isDigit_of_mem_toDigits (by decide) (by decide) member
  rw [intOf, same _ _ digits]
  exact Nat.ofDigitChars_ten_toDigits

theorem decimal_injective : Function.Injective decimal := by
  intro left right same
  rw [← intOf_decimal left, same, intOf_decimal]

theorem intText_injective : Function.Injective intText := by
  intro left right same
  have noSign (n : Nat) (rest : List Char) : decimal n ≠ '-' :: rest := by
    intro equal
    have sign : '-' ∈ decimal n := by
      rw [equal]
      exact List.mem_cons_self
    exact absurd (isDecimal_of_mem_decimal sign) (by decide)
  cases left with
  | ofNat left =>
      cases right with
      | ofNat right => rw [decimal_injective same]
      | negSucc right => exact absurd same (noSign left _)
  | negSucc left =>
      cases right with
      | ofNat right => exact absurd same.symm (noSign right _)
      | negSucc right =>
          have next := decimal_injective (List.cons.inj same).2
          rw [Nat.succ.inj next]

theorem layerName_injective : Function.Injective layerName := fun _ _ same =>
  intText_injective (List.append_cancel_left same)

theorem numaName_injective : Function.Injective numaName := fun _ _ same =>
  decimal_injective (List.append_cancel_left same)

/-! ## Reading a name -/

theorem after_append (expected rest : List Char) : after expected (expected ++ rest) = some rest := by
  rw [after, if_pos (List.isPrefixOf_iff_prefix.mpr (List.prefix_append expected rest)), List.drop_left]

theorem after_eq_some : after expected text = some rest ↔ text = expected ++ rest := by
  constructor
  · intro found
    rw [after] at found
    split at found
    · rename_i isPrefix
      obtain ⟨tail, rfl⟩ := List.isPrefixOf_iff_prefix.mp isPrefix
      rw [List.drop_left] at found
      rw [Option.some.inj found]
    · cases found
  · rintro rfl
    exact after_append expected rest

theorem takeProjection_append (projection : Projection) (rest : List Char) :
    takeProjection (projection.text ++ rest) = some (projection, rest) := by
  cases projection with
  | gate => rfl
  | up => rfl
  | down => rfl

theorem takeProjection_eq_some (found : takeProjection text = some (projection, rest)) :
    text = projection.text ++ rest := by
  rw [takeProjection] at found
  obtain ⟨candidate, -, matched⟩ := List.exists_of_findSome?_eq_some found
  obtain ⟨tail, isAfter, same⟩ := Option.map_eq_some_iff.mp matched
  rw [Prod.mk.injEq] at same
  rw [← same.1, ← same.2]
  exact after_eq_some.mp isAfter

theorem takeDigits_append (digits : List Char) (some_ : digits ≠ []) (all : ∀ char ∈ digits, isDecimal char = true)
    (stop : isDecimal char = false) (rest : List Char) :
    takeDigits (digits ++ char :: rest) = some (digits, char :: rest) := by
  have taken : (digits ++ char :: rest).takeWhile isDecimal = digits := by
    rw [List.takeWhile_append_of_pos all, List.takeWhile_cons_of_neg (by simp [stop]), List.append_nil]
  have dropped : (digits ++ char :: rest).dropWhile isDecimal = char :: rest := by
    rw [List.dropWhile_append_of_pos all, List.dropWhile_cons_of_neg (by simp [stop])]
  simp only [takeDigits]
  rw [taken, dropped, if_neg some_]

theorem takeDigits_eq_some (found : takeDigits text = some (digits, rest)) :
    text = digits ++ rest ∧ digits ≠ [] ∧ ∀ char ∈ digits, isDecimal char = true := by
  simp only [takeDigits] at found
  split at found
  · cases found
  · rename_i some_
    rw [Option.some.injEq, Prod.mk.injEq] at found
    obtain ⟨rfl, rfl⟩ := found
    exact ⟨(List.takeWhile_append_dropWhile).symm, some_, fun _ member => List.mem_takeWhile_imp member⟩

/-! ## Paths -/

def pathParts (text : List Char) : List Name :=
  (text.splitOn '/').filter fun part => decide (part ≠ [] ∧ part ≠ ['.'])

theorem pathParts_posix {path : List Name} (some_ : path ≠ []) (each : ∀ name ∈ path, Node.IsName name) :
    pathParts (posix path) = path := by
  rw [pathParts, posix, List.splitOn_intercalate _ (fun name member => (each name member).2.2) some_,
    List.filter_eq_self]
  intro name member
  exact decide_eq_true ⟨(each name member).1, (each name member).2.1⟩

theorem slash_not_mem_decimal (n : Nat) : '/' ∉ decimal n := fun member =>
  absurd (isDecimal_of_mem_decimal member) (by decide)

theorem isName_layerName (index : Int) : Node.IsName (layerName index) := by
  refine ⟨List.cons_ne_nil _ _, ?_, ?_⟩
  · intro same
    cases (List.cons.inj same).1
  · cases index with
    | ofNat n =>
        intro member
        rcases List.mem_append.mp member with text | digits
        · revert text
          decide
        · exact slash_not_mem_decimal n digits
    | negSucc n =>
        intro member
        rcases List.mem_append.mp member with text | digits
        · revert text
          decide
        · rcases List.mem_cons.mp digits with sign | digits
          · revert sign
            decide
          · exact slash_not_mem_decimal _ digits

theorem isName_numaName (index : Nat) : Node.IsName (numaName index) := by
  refine ⟨List.cons_ne_nil _ _, ?_, ?_⟩
  · intro same
    cases (List.cons.inj same).1
  · intro member
    rcases List.mem_append.mp member with text | digits
    · revert text
      decide
    · exact slash_not_mem_decimal index digits

theorem mem_expectedIdentities {identity : Identity} :
    identity ∈ expectedIdentities numaCount expertNum ↔ identity.1 < numaCount ∧ identity.2.2.1 < expertNum := by
  obtain ⟨numa, projection, expert, kind⟩ := identity
  have projections : projection ∈ [Projection.gate, .up, .down] := by
    cases projection
    all_goals decide
  have kinds : kind ∈ [Section.quant, .scale] := by
    cases kind
    all_goals decide
  simp only [expectedIdentities, List.pair_mem_product, List.mem_range, projections, kinds, true_and, and_true]

end KtKernel.Sft
