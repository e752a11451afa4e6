import Livelock.Shared
import Mathlib.Data.List.TakeWhile
import Mathlib.Data.Rat.Encodable
import Mathlib.Logic.Function.Basic

namespace Livelock.Ascii

open Livelock.Shared

def lstripAscii (cs : List Char) : List Char := cs.dropWhile Char.isWhitespace

def stripAscii (s : String) : String :=
  String.ofList (lstripAscii (lstripAscii s.toList).reverse).reverse

theorem lstripAscii_graphic {cs : List Char} (h : ∀ c ∈ cs, 33 ≤ c.toNat ∧ c.toNat < 127) :
    lstripAscii cs = cs := by
  apply List.dropWhile_eq_self_iff.mpr
  intro hl hw
  have hc := h _ (List.getElem_mem hl)
  have hspace : cs[0].toNat = 32 ∨ cs[0].toNat = 9 ∨ cs[0].toNat = 13 ∨ cs[0].toNat = 10 := by
    simp only [Char.isWhitespace, Bool.or_eq_true, decide_eq_true_eq] at hw
    obtain ((hw | hw) | hw) | hw := hw <;> rw [hw] <;> decide
  omega

def digitsAscii (cs : List Char) : Option Nat :=
  if cs ≠ [] ∧ cs.all Char.isDigit then some (Nat.ofDigitChars 10 cs 0) else none

def intAscii (s : String) : Option Int :=
  match s.toList with
  | '-' :: cs => (digitsAscii cs).map fun n => -(n : Int)
  | cs => (digitsAscii cs).map fun n => (n : Int)

theorem digitsAscii_repr (n : Nat) : digitsAscii n.repr.toList = some n := by
  have hd : (Nat.toDigits 10 n).all Char.isDigit = true := by
    rw [List.all_eq_true]
    exact fun c hc => Nat.isDigit_of_mem_toDigits (by omega) (by omega) hc
  rw [Nat.toList_repr, digitsAscii, if_pos ⟨Nat.toDigits_ne_nil, hd⟩, Nat.ofDigitChars_ten_toDigits]

theorem intAscii_str (n : Int) : intAscii (toString n) = some n := by
  cases n with
  | ofNat n =>
    have hlist : (toString (Int.ofNat n)).toList = n.repr.toList := rfl
    have hhead : ∀ cs, n.repr.toList ≠ '-' :: cs := by
      intro cs he
      have hd : ('-' : Char).isDigit = true := by
        apply Nat.isDigit_of_mem_toDigits (b := 10) (n := n) (by omega) (by omega)
        rw [← Nat.toList_repr, he]
        exact List.mem_cons_self
      exact absurd hd (by decide)
    unfold intAscii
    rw [hlist]
    split
    · next cs he => exact absurd he (hhead cs)
    · rw [digitsAscii_repr]
      rfl
  | negSucc n =>
    have hlist : (toString (Int.negSucc n)).toList = '-' :: (n + 1).repr.toList :=
      String.toList_append
    unfold intAscii
    rw [hlist]
    simp only [digitsAscii_repr]
    rfl

def floatCode : FloatValue → Nat
  | .nan => 0
  | .infinite true => 1
  | .infinite false => 2
  | .finite x => Encodable.encode x + 3

theorem floatCode_injective : Function.Injective floatCode := by
  intro x y h
  cases x with
  | nan => cases y with
    | nan => rfl
    | infinite b => cases b <;> simp [floatCode] at h
    | finite y => simp [floatCode] at h
  | infinite a => cases y with
    | nan => cases a <;> simp [floatCode] at h
    | infinite b => cases a <;> cases b <;> simp_all [floatCode]
    | finite y => cases a <;> simp [floatCode] at h
  | finite x => cases y with
    | nan => simp [floatCode] at h
    | infinite b => cases b <;> simp [floatCode] at h
    | finite y =>
      have he : Encodable.encode x = Encodable.encode y := by simpa [floatCode] using h
      rw [Encodable.encode_injective he]

def strFloatAscii (x : FloatValue) : String :=
  if x = .finite 1 then "1.0" else "1.0" ++ String.ofList (List.replicate (floatCode x + 1) '0')

theorem strFloatAscii_injective : Function.Injective strFloatAscii := by
  have hlength : ∀ x, (strFloatAscii x).length = if x = .finite 1 then 3 else floatCode x + 4 := by
    intro x
    unfold strFloatAscii
    split
    · rfl
    · have hone : ("1.0" : String).length = 3 := rfl
      have hzeros : (String.ofList (List.replicate (floatCode x + 1) '0')).length = floatCode x + 1 := by
        simp
      rw [String.length_append, hone, hzeros]
      omega
  intro x y h
  have hl := congrArg String.length h
  rw [hlength, hlength] at hl
  by_cases hx : x = .finite 1
  · by_cases hy : y = .finite 1
    · rw [hx, hy]
    · rw [if_pos hx, if_neg hy] at hl
      omega
  · by_cases hy : y = .finite 1
    · rw [if_neg hx, if_pos hy] at hl
      omega
    · rw [if_neg hx, if_neg hy] at hl
      exact floatCode_injective (by omega)

theorem strFloatAscii_graphic (x : FloatValue) : Graphic (strFloatAscii x) := by
  have hone : Graphic "1.0" := graphic_of_all rfl
  unfold strFloatAscii
  split
  · exact hone
  · refine graphic_append hone fun c hc => ?_
    rw [String.toList_ofList] at hc
    rw [List.eq_of_mem_replicate hc]
    decide

/-- The functions on ASCII texts, for the runs on concrete inputs. Patterns
are the ones without special characters, and `*`. -/
noncomputable def ascii : Builtins where
  lower := String.toLower
  strip := stripAscii
  fnmatch name pattern := decide (pattern = "*" ∨ name = pattern)
  intOf := intAscii
  floatOf := Function.partialInv strFloatAscii
  strFloat := strFloatAscii
  lower_ascii _ _ := rfl
  strip_graphic s hs := by
    have hrev : ∀ c ∈ s.toList.reverse, 33 ≤ c.toNat ∧ c.toNat < 127 := fun c hc =>
      hs c (List.mem_reverse.mp hc)
    rw [stripAscii, lstripAscii_graphic hs, lstripAscii_graphic hrev, List.reverse_reverse,
      String.ofList_toList]
  intOf_str := intAscii_str
  floatOf_str x := Function.partialInv_left strFloatAscii_injective x
  strFloat_graphic := strFloatAscii_graphic

end Livelock.Ascii
