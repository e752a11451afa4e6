import Livelock.Shared
import Livelock.Lib.Reader
import Mathlib.Data.List.TakeWhile

namespace Livelock.ClientReader

open Livelock.Lib Livelock.Shared
open Livelock.Lib.Reader (ofOption next take)

/-- A reply as `_read_response` returns it, or the exception that it raises
for an error of the server. -/
inductive Response
  | value (v : Value)
  | text (s : String)
  | error (msg : String) (code : Option Int)

def Response.str? : Response → Option String
  | .text s | .value (.str s) => some s
  | _ => none

def keyNumber : Value → Option FloatValue
  | .bool b => some (.finite (if b then 1 else 0))
  | .int n => some (.finite n)
  | .float .nan => none
  | .float x => some x
  | _ => none

def sameKey : Value → Value → Bool
  | .none, .none => true
  | .str s, .str t => decide (s = t)
  | .bytes s, .bytes t => decide (s = t)
  | k, k' =>
    match keyNumber k, keyNumber k' with
    | some x, some y => decide (x = y)
    | _, _ => false

def hashable : Value → Bool
  | .list _ | .dict _ => false
  | _ => true

/-- A key that is there keeps its place and its first spelling. -/
def insertItem (key value : Value) : List (Value × Value) → List (Value × Value)
  | [] => [(key, value)]
  | (k, v) :: items => if sameKey k key then (k, value) :: items else (k, v) :: insertItem key value items

def setItem (r : List (Value × Value)) (key value : Value) : Option (List (Value × Value)) :=
  if hashable key then some (insertItem key value r) else none

/-- The line up to the first LF. When CR is missing before it the loop finds
the same line again however much is received, so that nothing is ever read. -/
def readline : Reader UInt8 Bytes := fun s =>
  match s.dropWhile (· ≠ 10) with
  | [] => none
  | _ :: rest =>
    let data := s.takeWhile (· ≠ 10)
    if data.getLast? = some 13 then some (data.dropLast, rest) else none

variable (py : Builtins)

def readInt : Reader UInt8 Int := do
  let line ← readline
  let text ← ofOption (decode line)
  ofOption (py.intOf (py.strip text))

def readBool : Reader UInt8 Bool := do
  let line ← readline
  let text ← ofOption (decode line)
  if text = "t" then return true
  else if text = "f" then return false
  else failure

def readFloat : Reader UInt8 FloatValue := do
  let line ← readline
  let text ← ofOption (decode line)
  ofOption (py.floatOf (py.strip text))

def readBytes : Reader UInt8 (Option Bytes) := do
  let len ← readInt py
  if len < 0 then return none
  else
    let line ← take (max 2 (len + 2)).toNat
    if line.getLast? ≠ some 10 then failure
    else if line.dropLast.getLast? ≠ some 13 then failure
    else if len = 0 then return some []
    else return some line.dropLast.dropLast

def readBlobStr : Reader UInt8 (Option String) := do
  match ← readBytes py with
  | none => return none
  | some data => return some (← ofOption (decode data))

mutual

/-- The rest of a value after its marker. Every value in it takes one more
byte, so as much fuel as there are bytes is enough. -/
def receiveResp : Nat → UInt8 → Reader UInt8 Value
  | 0, _ => failure
  | fuel + 1, c => do
    if c = ':'.toUInt8 then return .int (← readInt py)
    else if c = '^'.toUInt8 then return (← readBytes py).elim .none .bytes
    else if c = '*'.toUInt8 then return .list (← readArray fuel (← readInt py))
    else if c = '$'.toUInt8 then return (← readBlobStr py).elim .none .str
    else if c = '%'.toUInt8 then return .dict (← readDict fuel (← readInt py) [])
    else if c = '#'.toUInt8 then return .bool (← readBool)
    else if c = ','.toUInt8 then return .float (← readFloat py)
    else failure

/-- The loop of `_read_array`, which ends at zero only. -/
def readArray : Nat → Int → Reader UInt8 (List Value)
  | 0, len => if len = 0 then return [] else failure
  | fuel + 1, len => do
    if len = 0 then return []
    else
      let value ← receiveResp fuel (← next)
      let values ← readArray fuel (len - 1)
      return value :: values

def readDict : Nat → Int → List (Value × Value) → Reader UInt8 (List (Value × Value))
  | 0, len, r => if len = 0 then return r else failure
  | fuel + 1, len, r => do
    if len = 0 then return r
    else
      let key ← receiveResp fuel (← next)
      let value ← receiveResp fuel (← next)
      let r ← ofOption (setItem r key value)
      readDict fuel (len - 1) r

end

def readError : Reader UInt8 Response := do
  let line ← readline
  let data ← ofOption (decode line)
  let code := String.ofList (data.toList.takeWhile (· ≠ ' '))
  let msg := py.strip (data.replace code "")
  if code = "" then return .error msg none
  else return .error msg (some (← ofOption (py.intOf code)))

def markers : Bytes := encode ":*$,^#%"

def readResponse : Reader UInt8 Response := do
  let c ← next
  if c ∈ markers then
    let s ← get
    return .value (← receiveResp py (s.length + 1) c)
  else if c = '+'.toUInt8 then
    let line ← readline
    return .text (← ofOption (decode line))
  else if c = '-'.toUInt8 then readError py
  else failure

variable {py}

theorem split_line {w : Bytes} (h : 10 ∉ w) (rest : Bytes) :
    (w ++ crlf ++ rest).dropWhile (· ≠ 10) = 10 :: rest ∧
      (w ++ crlf ++ rest).takeWhile (· ≠ 10) = w ++ [13] := by
  have hall : ∀ b ∈ w ++ [13], (decide (b ≠ 10)) = true := by
    intro b hb
    obtain hb | hb := List.mem_append.mp hb
    · exact decide_eq_true fun he => h (he ▸ hb)
    · rw [List.mem_singleton.mp hb]
      decide
  have hsplit : w ++ crlf ++ rest = (w ++ [13]) ++ 10 :: rest := by simp [crlf]
  rw [hsplit]
  constructor
  · rw [List.dropWhile_append_of_pos hall]
    rfl
  · rw [List.takeWhile_append_of_pos hall]
    simp

theorem reads_line {w : Bytes} (h : 10 ∉ w) : Reader.Reads readline (w ++ crlf) w := by
  intro rest
  obtain ⟨hdrop, htake⟩ := split_line h rest
  simp only [readline, hdrop, htake, List.getLast?_concat, if_true, List.dropLast_concat]

theorem readline_line {s line rest : Bytes} (h : readline s = some (line, rest)) : 10 ∉ line := by
  have htake : 10 ∉ s.takeWhile (· ≠ 10) := by
    intro hmem
    simpa using List.mem_takeWhile_imp hmem
  simp only [readline] at h
  split at h
  · cases h
  split at h
  · obtain ⟨rfl, -⟩ := Prod.mk.inj (Option.some_inj.mp h)
    exact fun hmem => htake (List.dropLast_subset _ hmem)
  · cases h

theorem readline_newline {w line rest : Bytes} (h : 10 ∈ w)
    (hread : readline (w ++ crlf) = some (line, rest)) : rest ≠ [] := by
  cases hdrop : w.dropWhile (· ≠ 10) with
  | nil => exact absurd (List.dropWhile_eq_nil_iff.mp hdrop 10 h) (by decide)
  | cons b v =>
    have happend : (w ++ crlf).dropWhile (· ≠ 10) = b :: (v ++ crlf) := by
      rw [List.dropWhile_append, hdrop]
      rfl
    simp only [readline, happend] at hread
    split at hread
    · obtain ⟨-, rfl⟩ := Prod.mk.inj (Option.some_inj.mp hread)
      simp [crlf]
    · cases hread

theorem reads_int (n : Int) : Reader.Reads (readInt py) (encode (toString n) ++ crlf) n := by
  have hg := graphic_str n
  refine (reads_line (graphic_newline hg)).bind_pure ?_
  refine (Reader.reads_ofOption (decode_encode _)).bind_pure ?_
  rw [py.strip_graphic _ hg]
  exact Reader.reads_ofOption (py.intOf_str n)

theorem reads_float (x : FloatValue) :
    Reader.Reads (readFloat py) (encode (py.strFloat x) ++ crlf) x := by
  have hg := py.strFloat_graphic x
  refine (reads_line (graphic_newline hg)).bind_pure ?_
  refine (Reader.reads_ofOption (decode_encode _)).bind_pure ?_
  rw [py.strip_graphic _ hg]
  exact Reader.reads_ofOption (py.floatOf_str x)

theorem reads_bool (b : Bool) :
    Reader.Reads readBool (encode (if b then "t" else "f") ++ crlf) b := by
  have hnewline : 10 ∉ encode (if b then "t" else "f") := by cases b <;> decide
  refine (reads_line hnewline).bind_pure ?_
  refine (Reader.reads_ofOption (decode_encode _)).bind_pure ?_
  cases b <;> exact Reader.reads_pure _

theorem reads_sized {w data : Bytes} (hlen : Reader.Reads (readInt py) w data.length) :
    Reader.Reads (readBytes py) (w ++ (data ++ crlf)) (some data) := by
  refine hlen.bind ?_
  have hneg : ¬ (data.length : Int) < 0 := by omega
  have hsize : (data ++ crlf).length = (max 2 ((data.length : Int) + 2)).toNat := by
    simp only [List.length_append, crlf, List.length_cons, List.length_nil]
    omega
  rw [if_neg hneg]
  refine (Reader.reads_take hsize).bind_pure ?_
  have hsplit : data ++ crlf = (data ++ [13]) ++ [10] := by simp [crlf]
  rw [hsplit, List.getLast?_concat, List.dropLast_concat, List.getLast?_concat, List.dropLast_concat]
  simp only [ne_eq, not_true_eq_false, if_false]
  split
  · next hzero =>
    have hnil : data = [] := List.length_eq_zero_iff.mp (by omega)
    rw [hnil]
    exact Reader.reads_pure _
  · exact Reader.reads_pure _

theorem reads_bytes (data : Bytes) :
    Reader.Reads (readBytes py) (encode (toString data.length) ++ crlf ++ data ++ crlf) (some data) := by
  have hlen : Reader.Reads (readInt py) (encode (toString data.length) ++ crlf) data.length :=
    reads_int data.length
  rw [List.append_assoc]
  exact reads_sized hlen

theorem reads_blobStr (s : String) : Reader.Reads (readBlobStr py)
    (encode (toString (encode s).length) ++ crlf ++ encode s ++ crlf) (some s) := by
  refine (reads_bytes (encode s)).bind_pure ?_
  exact (Reader.reads_ofOption (decode_encode s)).bind_pure (Reader.reads_pure _)

mutual

def listed : Value → Value
  | .list items | .tuple items => .list (listedItems items)
  | .dict items => .dict (listedPairs items)
  | v => v

def listedItems : List Value → List Value
  | [] => []
  | v :: vs => listed v :: listedItems vs

def listedPairs : List (Value × Value) → List (Value × Value)
  | [] => []
  | (k, v) :: items => (listed k, listed v) :: listedPairs items

end

mutual

/-- The keys of a `dict` are of an admitted type, differ from each other, and
can be hashed after reading. -/
def Readable : Value → Prop
  | .list items | .tuple items => ReadableItems items
  | .dict items => ReadablePairs [] items
  | _ => True

def ReadableItems : List Value → Prop
  | [] => True
  | v :: vs => Readable v ∧ ReadableItems vs

def ReadablePairs : List (Value × Value) → List (Value × Value) → Prop
  | _, [] => True
  | r, (k, v) :: items => k.isKey = true ∧ hashable (listed k) = true ∧ Readable k ∧ Readable v ∧
      (∀ p ∈ r, sameKey p.1 (listed k) = false) ∧ ReadablePairs (r ++ [(listed k, listed v)]) items

end

theorem setItem_new {r : List (Value × Value)} {k v : Value} (hk : hashable k = true)
    (hr : ∀ p ∈ r, sameKey p.1 k = false) : setItem r k v = some (r ++ [(k, v)]) := by
  have hinsert : insertItem k v r = r ++ [(k, v)] := by
    induction r with
    | nil => rfl
    | cons p r ih =>
      rw [insertItem, hr p (by simp), if_neg Bool.false_ne_true, ih fun q hq => hr q (by simp [hq])]
      rfl
  rw [setItem, if_pos hk, hinsert]

/-- What is packed for a value: a marker and the rest, which is read back with
enough fuel for its bytes. -/
def Packs (py : Builtins) (v : Value) : Prop :=
  ∃ c tail, packResp py v = some (c :: tail) ∧ c ∈ markers ∧
    ∀ fuel, tail.length ≤ fuel → Reader.Reads (receiveResp py fuel c) tail (listed v)

theorem packs_scalar {v : Value} {c : UInt8} {tail : Bytes} (hpack : packResp py v = some (c :: tail))
    (hc : c ∈ markers) (htail : tail ≠ [])
    (hread : ∀ fuel, Reader.Reads (receiveResp py (fuel + 1) c) tail (listed v)) : Packs py v := by
  refine ⟨c, tail, hpack, hc, fun fuel hfuel => ?_⟩
  cases fuel with
  | zero => exact absurd (List.length_eq_zero_iff.mp (Nat.le_zero.mp hfuel)) htail
  | succ fuel => exact hread fuel

theorem packs_none : Packs py .none := by
  have hbytes : Reader.Reads (readBytes py) (encode "-1" ++ crlf) none := by
    refine (reads_int (-1)).bind_pure ?_
    rw [if_pos (by decide)]
    exact Reader.reads_pure none
  have hread : Reader.Reads (readBlobStr py) (encode "-1" ++ crlf) none :=
    hbytes.bind_pure (Reader.reads_pure none)
  have hpack : packResp py .none = some ('$'.toUInt8 :: (encode "-1" ++ crlf)) := by
    rw [packResp, packNull]
    rfl
  exact packs_scalar hpack (by decide) (by simp [crlf]) fun fuel => hread.bind_pure (Reader.reads_pure _)

theorem packs_int (n : Int) : Packs py (.int n) := by
  have hpack : packResp py (.int n) = some (':'.toUInt8 :: (encode (toString n) ++ crlf)) := by
    rw [packResp, packInt, List.append_assoc]
    rfl
  exact packs_scalar hpack (by decide) (by simp [crlf]) fun fuel =>
    (reads_int n).bind_pure (Reader.reads_pure _)

theorem packs_float (x : FloatValue) : Packs py (.float x) := by
  have hpack : packResp py (.float x) = some (','.toUInt8 :: (encode (py.strFloat x) ++ crlf)) := by
    rw [packResp, packFloat, List.append_assoc]
    rfl
  exact packs_scalar hpack (by decide) (by simp [crlf]) fun fuel =>
    (reads_float x).bind_pure (Reader.reads_pure _)

theorem packs_bool (b : Bool) : Packs py (.bool b) := by
  have hpack : packResp py (.bool b) =
      some ('#'.toUInt8 :: (encode (if b then "t" else "f") ++ crlf)) := by
    rw [packResp, packBool]
    cases b <;> rfl
  exact packs_scalar hpack (by decide) (by simp [crlf]) fun fuel =>
    (reads_bool b).bind_pure (Reader.reads_pure _)

theorem packs_str (s : String) : Packs py (.str s) := by
  have hpack : packResp py (.str s) = some ('$'.toUInt8 ::
      (encode (toString (encode s).length) ++ crlf ++ encode s ++ crlf)) := by
    simp only [packResp, packBlobStr, List.append_assoc]
    rfl
  exact packs_scalar hpack (by decide) (by simp [crlf]) fun fuel =>
    (reads_blobStr s).bind_pure (Reader.reads_pure _)

theorem packs_bytes (data : Bytes) : Packs py (.bytes data) := by
  have hpack : packResp py (.bytes data) = some ('^'.toUInt8 ::
      (encode (toString data.length) ++ crlf ++ data ++ crlf)) := by
    simp only [packResp, packBytes, List.append_assoc]
    rfl
  exact packs_scalar hpack (by decide) (by simp [crlf]) fun fuel =>
    (reads_bytes data).bind_pure (Reader.reads_pure _)

theorem length_head (n : Nat) : 0 < (encode (toString n) ++ crlf).length := by
  rw [List.length_append, crlf, List.length_cons]
  omega

theorem packs_nested {v : Value} {c : UInt8} {n : Nat} {w : Bytes}
    (hpack : packResp py v = some (c :: (encode (toString n) ++ crlf ++ w))) (hc : c ∈ markers)
    (hread : ∀ fuel, w.length ≤ fuel →
      Reader.Reads (receiveResp py (fuel + 1) c) (encode (toString n) ++ crlf ++ w) (listed v)) :
    Packs py v := by
  refine ⟨c, _, hpack, hc, fun fuel hfuel => ?_⟩
  have hhead := length_head n
  rw [List.length_append] at hfuel
  obtain ⟨fuel, rfl⟩ : ∃ n, fuel = n + 1 := Nat.exists_eq_succ_of_ne_zero (by omega)
  exact hread fuel (by omega)

theorem packResp_list {items : List Value} {w : Bytes} (h : packItems py items = some w) :
    packResp py (.list items) = some ('*'.toUInt8 :: (encode (toString items.length) ++ crlf ++ w)) := by
  simp only [packResp, h, Option.map_some, List.append_assoc]
  rfl

theorem packResp_tuple {items : List Value} {w : Bytes} (h : packItems py items = some w) :
    packResp py (.tuple items) = some ('*'.toUInt8 :: (encode (toString items.length) ++ crlf ++ w)) := by
  rw [packResp, ← packResp, packResp_list h]

theorem packResp_dict {items : List (Value × Value)} {w : Bytes} (h : packPairs py items = some w) :
    packResp py (.dict items) = some ('%'.toUInt8 :: (encode (toString items.length) ++ crlf ++ w)) := by
  simp only [packResp, h, Option.map_some, List.append_assoc]
  rfl

theorem readArray_succ (fuel n : Nat) : readArray py (fuel + 1) ((n + 1 : Nat) : Int) =
    (do
      let value ← receiveResp py fuel (← next)
      let values ← readArray py fuel n
      return value :: values) := by
  have hne : ¬ ((n + 1 : Nat) : Int) = 0 := by omega
  have hlen : ((n + 1 : Nat) : Int) - 1 = n := by omega
  rw [readArray, if_neg hne, hlen]

theorem readDict_succ (fuel n : Nat) (r : List (Value × Value)) :
    readDict py (fuel + 1) ((n + 1 : Nat) : Int) r =
      (do
        let key ← receiveResp py fuel (← next)
        let value ← receiveResp py fuel (← next)
        let r ← ofOption (setItem r key value)
        readDict py fuel n r) := by
  have hne : ¬ ((n + 1 : Nat) : Int) = 0 := by omega
  have hlen : ((n + 1 : Nat) : Int) - 1 = n := by omega
  rw [readDict, if_neg hne, hlen]

theorem packs_array {v : Value} {items : List Value} {w : Bytes} (hlisted : listed v = .list (listedItems items))
    (hpack : packResp py v = some ('*'.toUInt8 :: (encode (toString items.length) ++ crlf ++ w)))
    (hread : ∀ fuel, w.length ≤ fuel →
      Reader.Reads (readArray py fuel items.length) w (listedItems items)) : Packs py v := by
  refine packs_nested hpack (by decide) fun fuel hfuel => ?_
  rw [hlisted]
  exact (reads_int items.length).bind ((hread fuel hfuel).bind_pure (Reader.reads_pure _))

mutual

theorem packs : ∀ v, Readable v → Packs py v
  | .none, _ => packs_none
  | .bool b, _ => packs_bool b
  | .int n, _ => packs_int n
  | .float x, _ => packs_float x
  | .str s, _ => packs_str s
  | .bytes data, _ => packs_bytes data
  | .list items, h => by
    obtain ⟨w, hw, hread⟩ := packs_items items h
    exact packs_array rfl (packResp_list hw) hread
  | .tuple items, h => by
    obtain ⟨w, hw, hread⟩ := packs_items items h
    exact packs_array rfl (packResp_tuple hw) hread
  | .dict items, h => by
    obtain ⟨w, hw, hread⟩ := packs_pairs items [] h
    exact packs_nested (packResp_dict hw) (by decide) fun fuel hfuel =>
      (reads_int items.length).bind ((hread fuel hfuel).bind_pure (Reader.reads_pure _))

theorem packs_items : ∀ vs, ReadableItems vs → ∃ w, packItems py vs = some w ∧
    ∀ fuel, w.length ≤ fuel → Reader.Reads (readArray py fuel vs.length) w (listedItems vs)
  | [], _ => by
    refine ⟨[], rfl, fun fuel _ => ?_⟩
    cases fuel <;> exact Reader.reads_pure _
  | v :: vs, h => by
    obtain ⟨c, tail, hv, -, hreadv⟩ := packs v h.1
    obtain ⟨w, hw, hread⟩ := packs_items vs h.2
    refine ⟨c :: tail ++ w, by simp [packItems, hv, hw], fun fuel hfuel => ?_⟩
    rw [List.length_append, List.length_cons] at hfuel
    obtain ⟨fuel, rfl⟩ : ∃ n, fuel = n + 1 := Nat.exists_eq_succ_of_ne_zero (by omega)
    rw [List.length_cons, readArray_succ]
    refine (Reader.reads_next c).bind ((hreadv fuel (by omega)).bind ?_)
    exact (hread fuel (by omega)).bind_pure (Reader.reads_pure _)

theorem packs_pairs : ∀ items r, ReadablePairs r items → ∃ w, packPairs py items = some w ∧
    ∀ fuel, w.length ≤ fuel →
      Reader.Reads (readDict py fuel items.length r) w (r ++ listedPairs items)
  | [], r, _ => by
    refine ⟨[], rfl, fun fuel _ => ?_⟩
    rw [listedPairs, List.append_nil]
    cases fuel <;> exact Reader.reads_pure _
  | (k, v) :: items, r, h => by
    obtain ⟨hkey, hhash, hk, hv, hnew, hitems⟩ := h
    obtain ⟨c, tail, hpk, -, hreadk⟩ := packs k hk
    obtain ⟨c', tail', hpv, -, hreadv⟩ := packs v hv
    obtain ⟨w, hw, hread⟩ := packs_pairs items _ hitems
    refine ⟨c :: tail ++ (c' :: tail' ++ w), by simp [packPairs, hkey, hpk, hpv, hw], fun fuel hfuel => ?_⟩
    simp only [List.length_append, List.length_cons] at hfuel
    obtain ⟨fuel, rfl⟩ : ∃ n, fuel = n + 1 := Nat.exists_eq_succ_of_ne_zero (by omega)
    have hrest := hread fuel (by omega)
    rw [List.append_assoc] at hrest
    rw [List.length_cons, readDict_succ]
    refine (Reader.reads_next c).bind ((hreadk fuel (by omega)).bind ?_)
    refine (Reader.reads_next c').bind ((hreadv fuel (by omega)).bind ?_)
    exact (Reader.reads_ofOption (setItem_new hhash hnew)).bind hrest

end

/-- A readable value is read back, whatever comes after it. -/
theorem reads_value {v : Value} (h : Readable v) :
    ∃ w, packResp py v = some w ∧ Reader.Reads (readResponse py) w (.value (listed v)) := by
  obtain ⟨c, tail, hpack, hc, hread⟩ : Packs py v := packs v h
  refine ⟨c :: tail, hpack, fun rest => ?_⟩
  have hfuel : tail.length ≤ (tail ++ rest).length + 1 := by
    rw [List.length_append]
    omega
  have hvalue := hread _ hfuel rest
  rw [readResponse, List.cons_append, Reader.bind_next, if_pos hc, Reader.bind_get]
  exact Reader.bind_some hvalue

theorem extends_readline : Reader.Extends readline readline := by
  intro s rest line h t
  cases hdrop : s.dropWhile (· ≠ 10) with
  | nil =>
    simp only [readline, hdrop] at h
    cases h
  | cons b w =>
    have hdrop' : (s ++ t).dropWhile (· ≠ 10) = b :: (w ++ t) := by
      rw [List.dropWhile_append, hdrop]
      rfl
    have htake : (s ++ t).takeWhile (· ≠ 10) = s.takeWhile (· ≠ 10) := by
      have hsplit := congrArg List.length (s.takeWhile_append_dropWhile (p := (· ≠ 10)))
      rw [hdrop, List.length_append, List.length_cons] at hsplit
      rw [List.takeWhile_append, if_neg (by omega)]
    simp only [readline, hdrop] at h
    simp only [readline, hdrop', htake]
    split at h
    · next hcr =>
      obtain ⟨rfl, rfl⟩ := Prod.mk.inj (Option.some_inj.mp h)
      rw [if_pos hcr]
    · cases h

theorem extends_int : Reader.Extends (readInt py) (readInt py) :=
  extends_readline.bind fun _ => (Reader.extends_ofOption _).bind fun _ => Reader.extends_ofOption _

theorem extends_float : Reader.Extends (readFloat py) (readFloat py) :=
  extends_readline.bind fun _ => (Reader.extends_ofOption _).bind fun _ => Reader.extends_ofOption _

theorem extends_bool : Reader.Extends readBool readBool := by
  refine extends_readline.bind fun _ => (Reader.extends_ofOption _).bind fun _ => ?_
  exact (Reader.extends_pure _).ite ((Reader.extends_pure _).ite (Reader.extends_failure _))

theorem extends_bytes : Reader.Extends (readBytes py) (readBytes py) := by
  refine extends_int.bind fun len => (Reader.extends_pure _).ite ?_
  refine (Reader.extends_take _).bind fun line => ?_
  refine (Reader.extends_failure _).ite ((Reader.extends_failure _).ite ?_)
  exact (Reader.extends_pure _).ite (Reader.extends_pure _)

theorem extends_blobStr : Reader.Extends (readBlobStr py) (readBlobStr py) := by
  refine extends_bytes.bind fun x => ?_
  cases x with
  | none => exact Reader.extends_pure _
  | some data => exact (Reader.extends_ofOption _).map some

/-- What has been read does not change with more bytes, nor with more fuel. -/
theorem extends_resp {fuel fuel' : Nat} (h : fuel ≤ fuel') :
    (∀ c, Reader.Extends (receiveResp py fuel c) (receiveResp py fuel' c)) ∧
      (∀ len, Reader.Extends (readArray py fuel len) (readArray py fuel' len)) ∧
      ∀ len r, Reader.Extends (readDict py fuel len r) (readDict py fuel' len r) := by
  induction fuel generalizing fuel' with
  | zero =>
    refine ⟨fun c => Reader.extends_failure _, fun len => ?_, fun len r => ?_⟩
    · cases fuel' <;> exact (Reader.extends_pure _).ite (Reader.extends_failure _)
    · cases fuel' <;> exact (Reader.extends_pure _).ite (Reader.extends_failure _)
  | succ fuel ih =>
    obtain ⟨fuel', rfl⟩ : ∃ n, fuel' = n + 1 := Nat.exists_eq_succ_of_ne_zero (by omega)
    obtain ⟨hresp, harray, hdict⟩ := ih (Nat.le_of_succ_le_succ h)
    refine ⟨fun c => ?_, fun len => ?_, fun len r => ?_⟩
    · refine (extends_int.map _).ite ((extends_bytes.map _).ite ?_)
      refine (extends_int.bind fun len => (harray len).map _).ite ((extends_blobStr.map _).ite ?_)
      refine (extends_int.bind fun len => (hdict len []).map _).ite ((extends_bool.map _).ite ?_)
      exact (extends_float.map _).ite (Reader.extends_failure _)
    · refine (Reader.extends_pure _).ite (Reader.extends_next.bind fun c => (hresp c).bind fun v => ?_)
      exact (harray _).map _
    · refine (Reader.extends_pure _).ite (Reader.extends_next.bind fun c => (hresp c).bind fun k => ?_)
      refine Reader.extends_next.bind fun c => (hresp c).bind fun v => ?_
      exact (Reader.extends_ofOption _).bind fun r => hdict _ r

end Livelock.ClientReader
