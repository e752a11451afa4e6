import Mathlib.Algebra.Order.Ring.Rat
import Mathlib.Data.List.Basic

namespace Livelock.Shared

inductive ErrorCode
  | connRequired
  | wrongArgs
  | connHasId
  | unknownCommand
  | pass
  | resp
  | server
  | keyNotExists
  | serverTerminating
deriving DecidableEq

def ErrorCode.number : ErrorCode → Nat
  | .connRequired => 1
  | .wrongArgs => 2
  | .connHasId => 3
  | .unknownCommand => 4
  | .pass => 5
  | .resp => 6
  | .server => 7
  | .keyNotExists => 8
  | .serverTerminating => 9

def ErrorCode.text : ErrorCode → String
  | .connRequired => "CONN required first"
  | .wrongArgs => "Wrong number of arguments"
  | .connHasId => "Already has client id"
  | .unknownCommand => "Unknown command"
  | .pass => "Wrong or no password"
  | .resp => "RESP protocol error"
  | .server => "Server error"
  | .keyNotExists => "Key does not exists"
  | .serverTerminating => "Server terminating"

abbrev Bytes := List UInt8

def encode (s : String) : Bytes := s.toUTF8.data.toList

def decode (data : Bytes) : Option String := String.fromUTF8? ⟨data.toArray⟩

theorem decode_encode (s : String) : decode (encode s) = some s := by
  have hs : (⟨(encode s).toArray⟩ : ByteArray) = s.toUTF8 := by simp [encode]
  rw [decode, hs, String.toUTF8_eq_toByteArray, String.fromUTF8?, dif_pos s.isValidUTF8]
  rfl

theorem decode_some {data : Bytes} {s : String} (h : decode data = some s) : encode s = data := by
  simp only [decode, String.fromUTF8?] at h
  split at h
  · cases h
    rfl
  · cases h

theorem encode_append (s t : String) : encode (s ++ t) = encode s ++ encode t := by
  simp [encode, ByteArray.data_append]

theorem encode_eq_nil {s : String} : encode s = [] ↔ s = "" := by
  constructor
  · intro h
    have hs := decode_encode s
    rw [h] at hs
    exact (Option.some_inj.mp hs).symm
  · rintro rfl
    rfl

theorem encode_inj {s t : String} (h : encode s = encode t) : s = t := by
  have hs := decode_encode s
  rw [h, decode_encode] at hs
  exact (Option.some_inj.mp hs).symm

theorem encode_toList (s : String) : encode s = s.toList.flatMap String.utf8EncodeChar := by
  have h := String.utf8Encode_toList (b := s)
  rw [encode, String.toUTF8_eq_toByteArray, ← h, List.utf8Encode]
  simp

theorem mem_utf8EncodeChar {c : Char} {b : UInt8} (hb : b.toNat < 128)
    (h : b ∈ String.utf8EncodeChar c) : c.toNat = b.toNat := by
  have hc : c.toNat = c.val.toNat := rfl
  simp only [String.utf8EncodeChar] at h
  split at h
  · rw [List.mem_singleton.mp h] at hb ⊢
    simp only [UInt8.toNat_ofNat'] at hb ⊢
    omega
  split at h
  · simp only [List.mem_cons, List.not_mem_nil, or_false] at h
    obtain rfl | rfl := h <;> simp only [UInt8.toNat_ofNat'] at hb <;> omega
  split at h
  · simp only [List.mem_cons, List.not_mem_nil, or_false] at h
    obtain rfl | rfl | rfl := h <;> simp only [UInt8.toNat_ofNat'] at hb <;> omega
  · simp only [List.mem_cons, List.not_mem_nil, or_false] at h
    obtain rfl | rfl | rfl | rfl := h <;> simp only [UInt8.toNat_ofNat'] at hb <;> omega

theorem newline_mem_encode {s : String} : 10 ∈ encode s ↔ '\n' ∈ s.toList := by
  rw [encode_toList, List.mem_flatMap]
  constructor
  · rintro ⟨c, hc, hb⟩
    have hn : c.toNat = 10 := mem_utf8EncodeChar (by decide) hb
    have he : c = '\n' := Char.ext (UInt32.toNat_inj.mp hn)
    rw [← he]
    exact hc
  · intro h
    exact ⟨'\n', h, by decide⟩

/-- A floating point number: a rational, or one of the values that are not
finite. -/
inductive FloatValue
  | finite (x : ℚ)
  | infinite (negative : Bool)
  | nan
deriving DecidableEq

/-- A text of printable ASCII characters other than the blank. -/
def Graphic (s : String) : Prop := ∀ c ∈ s.toList, 33 ≤ c.toNat ∧ c.toNat < 127

/-- The functions on texts that the server and the client take from the
language, with what its documentation promises about them. -/
structure Builtins where
  lower : String → String
  strip : String → String
  fnmatch : String → String → Bool
  intOf : String → Option Int
  floatOf : String → Option FloatValue
  strFloat : FloatValue → String
  lower_ascii : ∀ s, (∀ c ∈ s.toList, c.toNat < 128) → lower s = s.toLower
  strip_graphic : ∀ s, Graphic s → strip s = s
  intOf_str : ∀ n : Int, intOf (toString n) = some n
  floatOf_str : ∀ x, floatOf (strFloat x) = some x
  strFloat_graphic : ∀ x, Graphic (strFloat x)

theorem graphic_of_all {s : String}
    (h : (s.toList.all fun c => decide (33 ≤ c.toNat ∧ c.toNat < 127)) = true) : Graphic s :=
  fun c hc => of_decide_eq_true (List.all_eq_true.mp h c hc)

theorem graphic_append {s t : String} (hs : Graphic s) (ht : Graphic t) : Graphic (s ++ t) := by
  intro c hc
  rw [String.toList_append, List.mem_append] at hc
  exact hc.elim (hs c) (ht c)

theorem graphic_repr (n : Nat) : Graphic n.repr := by
  intro c hc
  rw [Nat.toList_repr] at hc
  have hd := Nat.isDigit_of_mem_toDigits (by omega) (by omega) hc
  simp only [Char.isDigit, Bool.and_eq_true, decide_eq_true_eq, ge_iff_le, UInt32.le_iff_toNat_le] at hd
  have hzero : ('0' : Char).val.toNat = 48 := rfl
  have hnine : ('9' : Char).val.toNat = 57 := rfl
  have hval : c.toNat = c.val.toNat := rfl
  omega

theorem graphic_str (n : Int) : Graphic (toString n) := by
  cases n with
  | ofNat n => exact graphic_repr n
  | negSucc n =>
    have hminus : Graphic "-" := graphic_of_all rfl
    exact graphic_append hminus (graphic_repr (n + 1))

theorem graphic_newline {s : String} (h : Graphic s) : 10 ∉ encode s := by
  rw [newline_mem_encode]
  intro hc
  have hn := (h _ hc).1
  exact absurd hn (by decide)

/-- The values that `pack_resp` tells apart. -/
inductive Value
  | none
  | bool (b : Bool)
  | int (n : Int)
  | float (x : FloatValue)
  | str (s : String)
  | bytes (data : Bytes)
  | list (items : List Value)
  | tuple (items : List Value)
  | dict (items : List (Value × Value))

def crlf : Bytes := [13, 10]

theorem encode_line (s : String) : encode (s ++ "\r\n") = encode s ++ crlf := by
  have hcrlf : encode "\r\n" = crlf := by decide
  rw [encode_append, hcrlf]

def packBytes (value : Bytes) : Bytes :=
  encode "^" ++ encode (toString value.length) ++ crlf ++ value ++ crlf

def packBlobStr (value : String) : Bytes :=
  encode "$" ++ encode (toString (encode value).length) ++ crlf ++ encode value ++ crlf

def packNull : Bytes := encode "$-1" ++ crlf

def packInt (value : Int) : Bytes := encode ":" ++ encode (toString value) ++ crlf

def packBool (value : Bool) : Bytes := encode (if value then "#t" else "#f") ++ crlf

/-- The types that `_pack_dict` admits as keys. -/
def Value.isKey : Value → Bool
  | .tuple _ | .list _ | .int _ | .float _ | .str _ => true
  | _ => false

variable (py : Builtins)

def packFloat (value : FloatValue) : Bytes := encode "," ++ encode (py.strFloat value) ++ crlf

mutual

/-- `none` when a key of a `dict` is refused. -/
def packResp : Value → Option Bytes
  | .none => some packNull
  | .str s => some (packBlobStr s)
  | .int n => some (packInt n)
  | .list items => (packItems items).map (encode "*" ++ encode (toString items.length) ++ crlf ++ ·)
  | .tuple items => (packItems items).map (encode "*" ++ encode (toString items.length) ++ crlf ++ ·)
  | .dict items => (packPairs items).map (encode "%" ++ encode (toString items.length) ++ crlf ++ ·)
  | .float x => some (packFloat py x)
  | .bool b => some (packBool b)
  | .bytes data => some (packBytes data)

def packItems : List Value → Option Bytes
  | [] => some []
  | v :: vs => do return (← packResp v) ++ (← packItems vs)

def packPairs : List (Value × Value) → Option Bytes
  | [] => some []
  | (k, v) :: items =>
    if k.isKey then do return (← packResp k) ++ (← packResp v) ++ (← packPairs items) else none

end

end Livelock.Shared
