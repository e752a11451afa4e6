import Livelock.Ascii
import Livelock.ClientReader
import Livelock.Pipeline

namespace Livelock.ReaderAgreement

open Livelock.Lib Livelock.Shared Livelock.Server
open Livelock.ServerReader (isspace streamLimit readuntil)

/-- A byte string in the format that the two readers have in common: the line
after a marker, and what comes after the line. -/
inductive Frame
  | int (line : Bytes)
  | float (line : Bytes)
  | bulk (line data : Bytes)
  | array (line : Bytes) (items : List Frame)

def Frame.marker : Frame → UInt8
  | .int _ => ':'.toUInt8
  | .float _ => ','.toUInt8
  | .bulk _ _ => '$'.toUInt8
  | .array _ _ => '*'.toUInt8

mutual

def Frame.tail : Frame → Bytes
  | .int line | .float line => line ++ crlf
  | .bulk line data => line ++ crlf ++ data
  | .array line items => line ++ crlf ++ tails items

def tails : List Frame → Bytes
  | [] => []
  | f :: fs => f.marker :: f.tail ++ tails fs

end

mutual

def Frame.nesting : Frame → Nat
  | .array _ items => nestings items + 1
  | _ => 0

def nestings : List Frame → Nat
  | [] => 0
  | f :: fs => max f.nesting (nestings fs)

end

variable (py : Builtins)

def number {α : Type} (ofText : String → Option α) (line : Bytes) : Option α :=
  (decode line).bind fun text => ofText (py.strip text)

mutual

/-- The lines end where they seem to. A length, if it is one at all, is that of
the data with CR LF, where a negative one has no data, and a number of items is
negative or that of the items. -/
def Frame.Sized : Frame → Prop
  | .int line | .float line => ¬ crlf <:+: line
  | .bulk line data => ¬ crlf <:+: line ∧ ∀ len, number py py.intOf line = some len →
      data.length = if len < 0 then 0 else len.toNat + 2
  | .array line items => ¬ crlf <:+: line ∧
      (∀ len, number py py.intOf line = some len → len < 0 ∨ len = items.length) ∧ SizedItems items

def SizedItems : List Frame → Prop
  | [] => True
  | f :: fs => f.Sized ∧ SizedItems fs

end

mutual

/-- What the client takes. No LF is in a line, the numbers are numbers, no count
is negative and the data is a text. -/
def Frame.Legible : Frame → Prop
  | .int line => 10 ∉ line ∧ ∃ k, number py py.intOf line = some k
  | .float line => 10 ∉ line ∧ ∃ x, number py py.floatOf line = some x
  | .bulk line data => 10 ∉ line ∧ ∃ len, number py py.intOf line = some len ∧
      (len < 0 ∨ ∃ text, data = encode text ++ crlf)
  | .array line items => 10 ∉ line ∧ (∃ len, number py py.intOf line = some len ∧ 0 ≤ len) ∧
      LegibleItems items

def LegibleItems : List Frame → Prop
  | [] => True
  | f :: fs => f.Legible ∧ LegibleItems fs

end

mutual

/-- What the server takes, with the bytes `after` it. No line is too long for
the stream, the numbers are numbers, no count is negative and the data ends with
CR LF, which is wanted after a null bulk string as well. So there is one at the
end of the frame only, and two bytes after it are taken. -/
def Frame.Served : Frame → Bytes → Prop
  | .int line, after => line.length ≤ streamLimit ∧ (∃ k, number py py.intOf line = some k) ∧ after = []
  | .float line, after => line.length ≤ streamLimit ∧ (∃ x, number py py.floatOf line = some x) ∧ after = []
  | .bulk line data, after => line.length ≤ streamLimit ∧ ∃ len, number py py.intOf line = some len ∧
      ((len < 0 ∧ after = crlf) ∨ (0 ≤ len ∧ (∃ x, data = x ++ crlf) ∧ after = []))
  | .array line items, after => line.length ≤ streamLimit ∧
      (∃ len, number py py.intOf line = some len ∧ 0 ≤ len) ∧ ServedItems items after

def ServedItems : List Frame → Bytes → Prop
  | [], after => after = []
  | f :: fs, after => (f.Served [] ∧ ServedItems fs after) ∨ (fs = [] ∧ f.Served after)

end

mutual

def decoded : Arg → Option Value
  | .null => some .none
  | .int n => some (.int n)
  | .float x => some (.float x)
  | .bytes data => (decode data).map .str
  | .array items => (decodedItems items).map .list

def decodedItems : List Arg → Option (List Value)
  | [] => some []
  | a :: as => do return (← decoded a) :: (← decodedItems as)

end

/-- The value that the server reads after a marker, as one of the client if it
is one, and where it stops. -/
def serverReads (depth : Nat) (c : UInt8) (s : Bytes) : Option (Option Value × Bytes) :=
  match ServerReader.receiveResp py depth c s with
  | .done a rest => some (decoded a, rest)
  | _ => none

/-- The value that the client reads after a marker, and where it stops. -/
def clientReads (c : UInt8) (s : Bytes) : Option (Value × Bytes) :=
  ClientReader.receiveResp py (s.length + 1) c s

/-- Both fail, or both read the same value and stop at the same place. -/
def Agree (depth : Nat) (c : UInt8) (s : Bytes) : Prop :=
  serverReads py depth c s = (clientReads py c s).map fun p => (some p.1, p.2)

variable {py} {line rest : Bytes} {α : Type} {ofText : String → Option α}

theorem no_crlf (h : 10 ∉ line) : ¬ crlf <:+: line := fun hcrlf => h (hcrlf.subset (by decide))

theorem encode_concat {w : Bytes} {b : UInt8} {t : String} (hb : b.toNat < 128)
    (h : encode t = w ++ [b]) : ∃ s, encode s = w := by
  rw [encode_toList] at h
  obtain hnil | ⟨cs, c, hlist⟩ := t.toList.eq_nil_or_concat
  · rw [hnil] at h
    exact absurd h.symm (by simp)
  rw [hlist, List.concat_eq_append, List.flatMap_append, List.flatMap_singleton] at h
  have hne : String.utf8EncodeChar c ≠ [] := String.utf8EncodeChar_ne_nil
  have hlast : b ∈ String.utf8EncodeChar c := by
    have hget := congrArg List.getLast? h
    rw [List.getLast?_append_of_ne_nil _ hne, List.getLast?_concat] at hget
    exact List.mem_of_getLast? hget
  have hc : c.toNat = b.toNat := mem_utf8EncodeChar hb hlast
  have hone : (String.utf8EncodeChar c).length = 1 := by
    rw [String.length_utf8EncodeChar, Char.utf8Size_eq_one_iff, UInt32.le_iff_toNat_le]
    have hval : c.toNat = c.val.toNat := rfl
    have hmax : (127 : UInt32).toNat = 127 := rfl
    omega
  have hw := (List.append_inj' h hone).1
  refine ⟨String.ofList cs, ?_⟩
  rw [encode_toList, String.toList_ofList, hw]

theorem decode_line (line : Bytes) : decode (line ++ crlf) = (decode line).map (· ++ "\r\n") := by
  cases hline : decode line with
  | some text =>
    have hsome : encode (text ++ "\r\n") = line ++ crlf := by rw [encode_line, decode_some hline]
    rw [← hsome, decode_encode]
    rfl
  | none =>
    cases hall : decode (line ++ crlf) with
    | none => rfl
    | some text =>
      have hsplit : encode text = (line ++ [13]) ++ [10] := by
        rw [decode_some hall]
        simp [crlf]
      obtain ⟨s, hs⟩ := encode_concat (by decide) hsplit
      obtain ⟨s', hs'⟩ := encode_concat (by decide) hs
      rw [← hs', decode_encode] at hline
      cases hline

theorem strip_crlf (s : String) : ServerReader.strip (s ++ "\r\n") = ServerReader.strip s := by
  have hlist : (s ++ "\r\n").toList = s.toList ++ ['\r', '\n'] := String.toList_append
  have hends : ∀ cs : List Char, (cs ++ ['\r', '\n']).rdropWhile isspace = cs.rdropWhile isspace := by
    intro cs
    have hsplit : cs ++ ['\r', '\n'] = cs ++ ['\r'] ++ ['\n'] := by simp
    rw [hsplit, List.rdropWhile_concat_pos _ _ _ (by decide), List.rdropWhile_concat_pos _ _ _ (by decide)]
  rw [ServerReader.strip, ServerReader.strip, hlist, List.dropWhile_append]
  split
  · next hnil =>
    rw [List.isEmpty_iff.mp hnil]
    rfl
  · rw [hends]

theorem scan_number (hstrip : py.strip = ServerReader.strip) (hline : ¬ crlf <:+: line) {x : α} {r : Bytes} :
    (do let line ← readuntil
        Scan.ofOption ((decode line).bind fun text => ofText (ServerReader.strip text)))
      (line ++ crlf ++ rest) = .done x r ↔
      line.length ≤ streamLimit ∧ number py ofText line = some x ∧ r = rest := by
  have hread : readuntil (line ++ crlf ++ rest) =
      if line.length ≤ streamLimit then .done (line ++ crlf) rest else .raised := by
    rw [readuntil, ServerReader.splitLine_line hline]
  have hnumber : ((decode (line ++ crlf)).bind fun text => ofText (ServerReader.strip text)) =
      number py ofText line := by
    rw [number, decode_line, hstrip]
    cases decode line with
    | none => rfl
    | some text => exact congrArg ofText (strip_crlf text)
  rw [Scan.bind_eq_done, hread]
  constructor
  · rintro ⟨line', rest', hdone, hx⟩
    split at hdone
    · next hlen =>
      cases hdone
      rw [hnumber, Scan.ofOption_eq_done] at hx
      exact ⟨hlen, hx⟩
    · cases hdone
  · rintro ⟨hlen, hx⟩
    refine ⟨line ++ crlf, rest, if_pos hlen, ?_⟩
    rw [hnumber, Scan.ofOption_eq_done]
    exact hx

variable {n : Nat} {a : Arg} {r : Bytes}

theorem server_int (hstrip : py.strip = ServerReader.strip) (hline : ¬ crlf <:+: line) :
    ServerReader.receiveResp py (n + 1) ':'.toUInt8 (line ++ crlf ++ rest) = .done a r ↔
      line.length ≤ streamLimit ∧ (∃ k, number py py.intOf line = some k ∧ a = .int k) ∧ r = rest := by
  have hread : ServerReader.receiveResp py (n + 1) ':'.toUInt8 =
      do return .int (← ServerReader.readInt py) := rfl
  rw [hread, Scan.bind_eq_done]
  constructor
  · rintro ⟨k, r', hread, ha⟩
    obtain ⟨hlen, hk, rfl⟩ := (scan_number hstrip hline).mp hread
    obtain ⟨rfl, rfl⟩ := Scan.pure_eq_done.mp ha
    exact ⟨hlen, ⟨k, hk, rfl⟩, rfl⟩
  · rintro ⟨hlen, ⟨k, hk, rfl⟩, rfl⟩
    exact ⟨k, r, (scan_number hstrip hline).mpr ⟨hlen, hk, rfl⟩, rfl⟩

theorem server_float (hstrip : py.strip = ServerReader.strip) (hline : ¬ crlf <:+: line) :
    ServerReader.receiveResp py (n + 1) ','.toUInt8 (line ++ crlf ++ rest) = .done a r ↔
      line.length ≤ streamLimit ∧ (∃ x, number py py.floatOf line = some x ∧ a = .float x) ∧ r = rest := by
  have hread : ServerReader.receiveResp py (n + 1) ','.toUInt8 =
      do return .float (← ServerReader.readFloat py) := rfl
  rw [hread, Scan.bind_eq_done]
  constructor
  · rintro ⟨x, r', hread, ha⟩
    obtain ⟨hlen, hx, rfl⟩ := (scan_number hstrip hline).mp hread
    obtain ⟨rfl, rfl⟩ := Scan.pure_eq_done.mp ha
    exact ⟨hlen, ⟨x, hx, rfl⟩, rfl⟩
  · rintro ⟨hlen, ⟨x, hx, rfl⟩, rfl⟩
    exact ⟨x, r, (scan_number hstrip hline).mpr ⟨hlen, hx, rfl⟩, rfl⟩

/-- Two more bytes are taken after a negative length too. -/
theorem server_bulk (hstrip : py.strip = ServerReader.strip) {data : Bytes}
    (hf : (Frame.bulk line data).Sized py) :
    ServerReader.receiveResp py (n + 1) '$'.toUInt8 (line ++ crlf ++ data ++ rest) = .done a r ↔
      line.length ≤ streamLimit ∧ ∃ len, number py py.intOf line = some len ∧
        ((len < 0 ∧ a = .null ∧ rest = crlf ++ r) ∨
          (0 ≤ len ∧ (∃ x, data = x ++ crlf ∧ a = .bytes x) ∧ r = rest)) := by
  obtain ⟨hline, hsize⟩ := hf
  have hread : ServerReader.receiveResp py (n + 1) '$'.toUInt8 =
      do return (← ServerReader.readBytes py).elim .null .bytes := rfl
  rw [hread, Scan.bind_eq_done, ServerReader.readBytes]
  simp only [Scan.bind_eq_done, Scan.ofOption_eq_done, Scan.pure_eq_done]
  constructor
  · rintro ⟨x, _, ⟨len, w, hint, taken, _, htake, hcheck, rfl⟩, rfl, rfl⟩
    rw [List.append_assoc] at hint
    obtain ⟨hlen, hnumber, rfl⟩ := (scan_number hstrip hline).mp hint
    obtain ⟨_, hsplit, rfl, htaken⟩ := (Scan.Recognises.take _).taken htake
    have hdata := hsize len hnumber
    refine ⟨hlen, len, hnumber, ?_⟩
    obtain ⟨hneg, rfl, rfl⟩ | ⟨x, rfl, rfl, rfl⟩ := ServerReader.checkBytes_some htaken hcheck
    · rw [if_pos hneg] at hdata
      rw [List.length_eq_zero_iff.mp hdata, List.nil_append] at hsplit
      exact .inl ⟨hneg, rfl, hsplit⟩
    · rw [if_neg (by omega)] at hdata
      obtain ⟨rfl, rfl⟩ := List.append_inj hsplit (by omega)
      exact .inr ⟨by omega, ⟨x, rfl, rfl⟩, rfl⟩
  · rintro ⟨hlen, len, hnumber, hcases⟩
    have hdata := hsize len hnumber
    have hline' : ServerReader.readInt py (line ++ crlf ++ (data ++ rest)) = .done len (data ++ rest) :=
      (scan_number hstrip hline).mpr ⟨hlen, hnumber, rfl⟩
    rw [List.append_assoc]
    obtain ⟨hneg, rfl, rfl⟩ | ⟨hpos, ⟨x, rfl, rfl⟩, rfl⟩ := hcases
    · rw [if_pos hneg] at hdata
      obtain rfl := List.length_eq_zero_iff.mp hdata
      have hmax : (max 2 (len + 2)).toNat = 2 := by omega
      refine ⟨none, r, ⟨len, _, hline', crlf, r, ?_, ServerReader.checkBytes_null hneg, rfl⟩, rfl, rfl⟩
      rw [hmax]
      exact (Scan.Recognises.take 2).takes ⟨rfl, rfl⟩ r
    · rw [if_neg (by omega)] at hdata
      have hlength : len = x.length := by
        rw [List.length_append, crlf, List.length_cons, List.length_cons, List.length_nil] at hdata
        omega
      subst hlength
      refine ⟨some x, r, ⟨_, _, hline', x ++ crlf, r, ?_, ServerReader.checkBytes_data x, rfl⟩, rfl, rfl⟩
      exact (Scan.Recognises.take _).takes ⟨rfl, by omega⟩ r

theorem server_array (hstrip : py.strip = ServerReader.strip) (hline : ¬ crlf <:+: line) :
    ServerReader.receiveResp py (n + 1) '*'.toUInt8 (line ++ crlf ++ rest) = .done a r ↔
      line.length ≤ streamLimit ∧ ∃ items : List Arg, number py py.intOf line = some (items.length : Int) ∧
        a = .array items ∧
        Scan.times (Scan.next >>= ServerReader.receiveResp py n) items.length rest = .done items r := by
  have hread : ServerReader.receiveResp py (n + 1) '*'.toUInt8 = do
      return .array (← ServerReader.readArray py (Scan.next >>= ServerReader.receiveResp py n)) := rfl
  rw [hread, Scan.bind_eq_done, ServerReader.readArray]
  simp only [Scan.bind_eq_done, Scan.pure_eq_done]
  constructor
  · rintro ⟨items, _, ⟨len, w, hint, hitems⟩, rfl, rfl⟩
    obtain ⟨hlen, hnumber, rfl⟩ := (scan_number hstrip hline).mp hint
    split at hitems
    · exact absurd hitems (Scan.Recognises.rounds_not_done _ _ _ _ _)
    · next hneg =>
      obtain ⟨-, -, hcount, -⟩ := ((ServerReader.recognises_resp n).times len.toNat).taken hitems
      have hlength : len = items.length := by omega
      refine ⟨hlen, items, hlength ▸ hnumber, rfl, ?_⟩
      rw [hcount]
      exact hitems
  · rintro ⟨hlen, items, hnumber, rfl, hitems⟩
    refine ⟨items, r, ⟨items.length, rest, (scan_number hstrip hline).mpr ⟨hlen, hnumber, rfl⟩, ?_⟩,
      rfl, rfl⟩
    rw [if_neg (by omega)]
    exact hitems

theorem client_number {x : α} (hline : 10 ∉ line) (hx : number py ofText line = some x) :
    Reader.Reads (do
      let line ← ClientReader.readline
      let text ← Reader.ofOption (decode line)
      Reader.ofOption (ofText (py.strip text))) (line ++ crlf) x := by
  obtain ⟨text, htext, hx⟩ := Option.bind_eq_some_iff.mp hx
  refine (ClientReader.reads_line hline).bind_pure ?_
  exact (Reader.reads_ofOption htext).bind_pure (Reader.reads_ofOption hx)

theorem client_newline (hline : ¬ crlf <:+: line) (hlf : 10 ∈ line) : Reader.Fails ClientReader.readline line := by
  intro rest
  obtain ⟨front, back, rfl, hfront⟩ := List.eq_append_cons_of_mem hlf
  have hall : ∀ b ∈ front, decide (b ≠ 10) = true :=
    fun b hb => decide_eq_true fun he => hfront (he ▸ hb)
  have hcr : ¬ front.getLast? = some 13 := by
    intro hlast
    obtain ⟨front', rfl⟩ := List.getLast?_eq_some_iff.mp hlast
    exact hline ⟨front', back, by simp [crlf]⟩
  have htake : (front ++ 10 :: back ++ rest).takeWhile (· ≠ 10) = front := by
    rw [List.append_assoc, List.takeWhile_append_of_pos hall]
    simp
  simp only [ClientReader.readline, htake, if_neg hcr]
  split <;> rfl

theorem client_no_number (hline : ¬ crlf <:+: line) (hx : ¬ (10 ∉ line ∧ ∃ x, number py ofText line = some x)) :
    Reader.Fails (do
      let line ← ClientReader.readline
      let text ← Reader.ofOption (decode line)
      Reader.ofOption (ofText (py.strip text))) (line ++ crlf) := by
  by_cases hlf : 10 ∈ line
  · exact ((client_newline hline hlf).append crlf).bind
  intro rest
  rw [Reader.bind_some (ClientReader.reads_line hlf rest)]
  cases htext : decode line with
  | none => exact Reader.bind_none (Reader.fails_ofOption rfl [] rest)
  | some text =>
    have hof : ofText (py.strip text) = none := by
      apply Option.eq_none_iff_forall_ne_some.mpr
      intro x hof
      exact hx ⟨hlf, x, by rw [number, htext, Option.bind_some, hof]⟩
    exact (Reader.reads_ofOption rfl).bind_fails (Reader.fails_ofOption hof []) rest

theorem client_null (hline : 10 ∉ line) {len : Int} (hlen : number py py.intOf line = some len)
    (hneg : len < 0) : Reader.Reads (ClientReader.readBlobStr py) (line ++ crlf) none := by
  have hbytes : Reader.Reads (ClientReader.readBytes py) (line ++ crlf) none := by
    refine (client_number hline hlen).bind_pure ?_
    rw [if_pos hneg]
    exact Reader.reads_pure none
  exact hbytes.bind_pure (Reader.reads_pure none)

theorem client_sized (hline : 10 ∉ line) {x : Bytes}
    (hlen : number py py.intOf line = some (x.length : Int)) :
    Reader.Reads (ClientReader.readBytes py) (line ++ crlf ++ (x ++ crlf)) (some x) :=
  ClientReader.reads_sized (client_number hline hlen)

theorem client_no_text (hline : 10 ∉ line) {len : Int} {data : Bytes}
    (hlen : number py py.intOf line = some len) (hpos : 0 ≤ len) (hsize : data.length = len.toNat + 2)
    (hno : ¬ ∃ s, data = encode s ++ crlf) :
    Reader.Fails (ClientReader.readBlobStr py) (line ++ crlf ++ data) := by
  by_cases hends : ∃ x, data = x ++ crlf
  · obtain ⟨x, rfl⟩ := hends
    have hlength : len = x.length := by
      rw [List.length_append, crlf, List.length_cons, List.length_cons, List.length_nil] at hsize
      omega
    subst hlength
    have hdecode : decode x = none := by
      cases hx : decode x with
      | none => rfl
      | some s => exact absurd ⟨s, by rw [decode_some hx]⟩ hno
    intro rest
    rw [ClientReader.readBlobStr, Reader.bind_some (client_sized hline hlen rest)]
    exact Reader.bind_none (Reader.fails_ofOption hdecode [] rest)
  · have htake : data.length = (max 2 (len + 2)).toNat := by omega
    have hbytes : Reader.Fails (ClientReader.readBytes py) (line ++ crlf ++ data) := by
      refine (client_number hline hlen).bind_fails ?_
      rw [if_neg (by omega)]
      rw [← List.append_nil data]
      refine (Reader.reads_take htake).bind_fails ?_
      split
      · exact fun _ => rfl
      split
      · exact fun _ => rfl
      next hlf hcr =>
      exact absurd ⟨_, ServerReader.ends_crlf (not_not.mp hlf) (not_not.mp hcr)⟩ hends
    exact hbytes.bind

theorem fuel_line {w : Bytes} {fuel : Nat} (h : (line ++ crlf ++ w).length ≤ fuel) :
    ∃ k, fuel = k + 1 ∧ w.length ≤ k := by
  rw [List.length_append, List.length_append, crlf, List.length_cons] at h
  exact ⟨fuel - 1, by omega, by omega⟩

theorem marker_ne (f : Frame) : f.marker ≠ 13 := by
  cases f <;> (rw [Frame.marker]; decide)

theorem times_frame {f : Frame} {k : Nat} {w : Bytes} {as : List Arg} :
    Scan.times (Scan.next >>= ServerReader.receiveResp py n) (k + 1) (f.marker :: f.tail ++ w) =
      .done as r ↔ ∃ a as' w', as = a :: as' ∧
        ServerReader.receiveResp py n f.marker (f.tail ++ w) = .done a w' ∧
        Scan.times (Scan.next >>= ServerReader.receiveResp py n) k w' = .done as' r := by
  have hnext : (Scan.next >>= ServerReader.receiveResp py n) (f.marker :: f.tail ++ w) =
      ServerReader.receiveResp py n f.marker (f.tail ++ w) := rfl
  simp only [Scan.times, Scan.bind_eq_done, Scan.pure_eq_done, hnext]
  constructor
  · rintro ⟨a, w', ha, as', _, has, rfl, rfl⟩
    exact ⟨a, as', w', rfl, ha, has⟩
  · rintro ⟨a, as', w', rfl, ha, has⟩
    exact ⟨a, w', ha, as', r, has, rfl, rfl⟩

mutual

theorem served_after : ∀ (f : Frame) {after : Bytes}, f.Served py after → after = [] ∨ after = crlf
  | .int _, _, h => .inl h.2.2
  | .float _, _, h => .inl h.2.2
  | .bulk _ _, _, ⟨_, _, _, .inl h⟩ => .inr h.2
  | .bulk _ _, _, ⟨_, _, _, .inr h⟩ => .inl h.2.2
  | .array _ items, _, h => served_after_items items h.2.2

theorem served_after_items : ∀ (fs : List Frame) {after : Bytes}, ServedItems py fs after →
    after = [] ∨ after = crlf
  | [], _, h => .inl h
  | _ :: fs, _, .inl h => served_after_items fs h.2
  | f :: _, _, .inr h => served_after f h.2

end

/-- Two bytes that are taken for a null bulk string are not those of the next
frame. -/
theorem times_frames {f : Frame} {fs : List Frame} {as : List Arg}
    (hdone : ∀ {rest a r}, ServerReader.receiveResp py n f.marker (f.tail ++ rest) = .done a r →
      ∃ after, f.Served py after ∧ rest = after ++ r)
    (h : Scan.times (Scan.next >>= ServerReader.receiveResp py n) (f :: fs).length (tails (f :: fs) ++ rest) =
      .done as r) :
    ∃ a as', as = a :: as' ∧
      ((f.Served py [] ∧
          ServerReader.receiveResp py n f.marker (f.tail ++ (tails fs ++ rest)) = .done a (tails fs ++ rest) ∧
          Scan.times (Scan.next >>= ServerReader.receiveResp py n) fs.length (tails fs ++ rest) = .done as' r) ∨
        (fs = [] ∧ as' = [] ∧ ServerReader.receiveResp py n f.marker (f.tail ++ rest) = .done a r)) := by
  rw [tails, List.append_assoc] at h
  obtain ⟨a, as', w, rfl, hread, hreads⟩ := times_frame.mp h
  refine ⟨a, as', rfl, ?_⟩
  cases fs with
  | nil =>
    cases hreads
    exact .inr ⟨rfl, rfl, hread⟩
  | cons f' fs =>
    obtain ⟨after, hserved, hafter⟩ := hdone hread
    obtain rfl | rfl := served_after f hserved
    · obtain rfl : w = tails (f' :: fs) ++ rest := hafter.symm
      exact .inl ⟨hserved, hread, hreads⟩
    · rw [tails, List.cons_append, List.cons_append, crlf, List.cons_append] at hafter
      exact absurd (List.cons.inj hafter).1 (marker_ne f')

mutual

theorem server_done (hstrip : py.strip = ServerReader.strip) : ∀ (f : Frame) {n : Nat} {rest : Bytes} {a : Arg}
    {r : Bytes}, f.Sized py → ServerReader.receiveResp py n f.marker (f.tail ++ rest) = .done a r →
    ∃ after, f.Served py after ∧ rest = after ++ r
  | _, 0, _, _, _, _, h => by cases h
  | .int line, n + 1, rest, a, r, hf, h => by
    obtain ⟨hlen, ⟨k, hk, rfl⟩, rfl⟩ := (server_int hstrip hf).mp h
    exact ⟨[], ⟨hlen, ⟨k, hk⟩, rfl⟩, rfl⟩
  | .float line, n + 1, rest, a, r, hf, h => by
    obtain ⟨hlen, ⟨x, hx, rfl⟩, rfl⟩ := (server_float hstrip hf).mp h
    exact ⟨[], ⟨hlen, ⟨x, hx⟩, rfl⟩, rfl⟩
  | .bulk line data, n + 1, rest, a, r, hf, h => by
    obtain ⟨hshort, len, hlen, ⟨hneg, rfl, rfl⟩ | ⟨hpos, ⟨x, hx, rfl⟩, rfl⟩⟩ := (server_bulk hstrip hf).mp h
    · exact ⟨crlf, ⟨hshort, len, hlen, .inl ⟨hneg, rfl⟩⟩, rfl⟩
    · exact ⟨[], ⟨hshort, len, hlen, .inr ⟨hpos, ⟨x, hx⟩, rfl⟩⟩, rfl⟩
  | .array line items, n + 1, rest, a, r, hf, h => by
    obtain ⟨hline, hcount, hsized⟩ := hf
    rw [Frame.marker, Frame.tail, List.append_assoc] at h
    obtain ⟨hshort, as, hlen, rfl, hread⟩ := (server_array hstrip hline).mp h
    have hlength : as.length = items.length := by
      have hitems := hcount _ hlen
      omega
    rw [hlength] at hread
    obtain ⟨after, hserved, hafter⟩ := server_done_items hstrip items hsized hread
    exact ⟨after, ⟨hshort, ⟨_, hlen, by omega⟩, hserved⟩, hafter⟩

theorem server_done_items (hstrip : py.strip = ServerReader.strip) : ∀ (fs : List Frame) {n : Nat}
    {rest : Bytes} {as : List Arg} {r : Bytes}, SizedItems py fs →
    Scan.times (Scan.next >>= ServerReader.receiveResp py n) fs.length (tails fs ++ rest) = .done as r →
    ∃ after, ServedItems py fs after ∧ rest = after ++ r
  | [], _, _, _, _, _, h => by
    cases h
    exact ⟨[], rfl, rfl⟩
  | f :: fs, n, rest, _, r, hf, h => by
    obtain ⟨a, as, rfl, ⟨hserved, -, hreads⟩ | ⟨rfl, -, hread⟩⟩ :=
      times_frames (server_done hstrip f hf.1) h
    · obtain ⟨after, hserveds, hafter⟩ := server_done_items hstrip fs hf.2 hreads
      exact ⟨after, .inl ⟨hserved, hserveds⟩, hafter⟩
    · obtain ⟨after, hserved, hafter⟩ := server_done hstrip f hf.1 hread
      exact ⟨after, .inr ⟨rfl, hserved⟩, hafter⟩

end

mutual

theorem served_read (hstrip : py.strip = ServerReader.strip) : ∀ (f : Frame) {after : Bytes}, f.Sized py →
    f.Served py after → ∃ a, ∀ n rest, f.nesting < n →
      ServerReader.receiveResp py n f.marker (f.tail ++ (after ++ rest)) = .done a rest
  | .int line, _, hf, ⟨hlen, ⟨k, hk⟩, hafter⟩ => by
    subst hafter
    refine ⟨.int k, fun n rest hn => ?_⟩
    obtain ⟨n, rfl⟩ := Nat.exists_eq_succ_of_ne_zero (Nat.ne_of_gt hn)
    exact (server_int hstrip hf).mpr ⟨hlen, ⟨k, hk, rfl⟩, rfl⟩
  | .float line, _, hf, ⟨hlen, ⟨x, hx⟩, hafter⟩ => by
    subst hafter
    refine ⟨.float x, fun n rest hn => ?_⟩
    obtain ⟨n, rfl⟩ := Nat.exists_eq_succ_of_ne_zero (Nat.ne_of_gt hn)
    exact (server_float hstrip hf).mpr ⟨hlen, ⟨x, hx, rfl⟩, rfl⟩
  | .bulk line data, _, hf, ⟨hshort, len, hlen, hdata⟩ => by
    obtain ⟨hneg, hafter⟩ | ⟨hpos, ⟨x, hx⟩, hafter⟩ := hdata
    · subst hafter
      refine ⟨.null, fun n rest hn => ?_⟩
      obtain ⟨n, rfl⟩ := Nat.exists_eq_succ_of_ne_zero (Nat.ne_of_gt hn)
      exact (server_bulk hstrip hf).mpr ⟨hshort, len, hlen, .inl ⟨hneg, rfl, rfl⟩⟩
    · subst hafter
      refine ⟨.bytes x, fun n rest hn => ?_⟩
      obtain ⟨n, rfl⟩ := Nat.exists_eq_succ_of_ne_zero (Nat.ne_of_gt hn)
      exact (server_bulk hstrip hf).mpr ⟨hshort, len, hlen, .inr ⟨hpos, ⟨x, hx, rfl⟩, rfl⟩⟩
  | .array line items, after, hf, ⟨hshort, ⟨len, hlen, hpos⟩, hitems⟩ => by
    obtain ⟨hline, hcount, hsized⟩ := hf
    obtain rfl : len = items.length := (hcount len hlen).resolve_left (by omega)
    obtain ⟨as, hlength, hread⟩ := served_read_items hstrip items hsized hitems
    refine ⟨.array as, fun n rest hn => ?_⟩
    obtain ⟨n, rfl⟩ := Nat.exists_eq_succ_of_ne_zero (Nat.ne_zero_of_lt hn)
    rw [Frame.tail, List.append_assoc]
    refine (server_array hstrip hline).mpr ⟨hshort, as, by rw [hlength]; exact hlen, rfl, ?_⟩
    rw [hlength]
    exact hread n rest (Nat.lt_of_succ_lt_succ hn)

theorem served_read_items (hstrip : py.strip = ServerReader.strip) : ∀ (fs : List Frame) {after : Bytes},
    SizedItems py fs → ServedItems py fs after → ∃ as : List Arg, as.length = fs.length ∧
      ∀ n rest, nestings fs < n →
        Scan.times (Scan.next >>= ServerReader.receiveResp py n) fs.length (tails fs ++ (after ++ rest)) =
          .done as rest
  | [], _, _, hafter => by
    obtain rfl : _ = [] := hafter
    exact ⟨[], rfl, fun n rest _ => rfl⟩
  | f :: fs, after, hf, .inl ⟨hserved, hserveds⟩ => by
    obtain ⟨a, hread⟩ := served_read hstrip f hf.1 hserved
    obtain ⟨as, hlength, hreads⟩ := served_read_items hstrip fs hf.2 hserveds
    refine ⟨a :: as, by rw [List.length_cons, hlength]; rfl, fun n rest hn => ?_⟩
    rw [nestings] at hn
    rw [tails, List.append_assoc]
    exact times_frame.mpr ⟨a, as, _, rfl, hread n _ (by omega), hreads n rest (by omega)⟩
  | f :: _, after, hf, .inr ⟨hfs, hserved⟩ => by
    subst hfs
    obtain ⟨a, hread⟩ := served_read hstrip f hf.1 hserved
    refine ⟨[a], rfl, fun n rest hn => ?_⟩
    rw [nestings] at hn
    rw [tails, List.append_assoc]
    exact times_frame.mpr ⟨a, [], rest, rfl, hread n rest (by omega), rfl⟩

end

variable (py) in
/-- The client reads the value, and so does the server if it reads any. -/
def BothRead (f : Frame) (v : Value) : Prop :=
  (∀ fuel, f.tail.length ≤ fuel → Reader.Reads (ClientReader.receiveResp py fuel f.marker) f.tail v) ∧
    ∀ {n rest a r}, ServerReader.receiveResp py n f.marker (f.tail ++ rest) = .done a r → decoded a = some v

theorem legible_int (hstrip : py.strip = ServerReader.strip) (hf : (Frame.int line).Sized py)
    (hline : 10 ∉ line) {k : Int} (hk : number py py.intOf line = some k) : BothRead py (.int line) (.int k) := by
  refine ⟨fun fuel hfuel => ?_, fun {n rest a r} hread => ?_⟩
  · rw [Frame.tail, ← List.append_nil (line ++ crlf)] at hfuel
    obtain ⟨fuel, rfl, -⟩ := fuel_line hfuel
    exact (client_number hline hk).bind_pure (Reader.reads_pure _)
  · cases n with
    | zero => cases hread
    | succ n =>
      obtain ⟨-, ⟨k', hk', rfl⟩, -⟩ := (server_int hstrip hf).mp hread
      obtain rfl := Option.some_inj.mp (hk.symm.trans hk')
      rfl

theorem legible_float (hstrip : py.strip = ServerReader.strip) (hf : (Frame.float line).Sized py)
    (hline : 10 ∉ line) {x : FloatValue} (hx : number py py.floatOf line = some x) :
    BothRead py (.float line) (.float x) := by
  refine ⟨fun fuel hfuel => ?_, fun {n rest a r} hread => ?_⟩
  · rw [Frame.tail, ← List.append_nil (line ++ crlf)] at hfuel
    obtain ⟨fuel, rfl, -⟩ := fuel_line hfuel
    exact (client_number hline hx).bind_pure (Reader.reads_pure _)
  · cases n with
    | zero => cases hread
    | succ n =>
      obtain ⟨-, ⟨x', hx', rfl⟩, -⟩ := (server_float hstrip hf).mp hread
      obtain rfl := Option.some_inj.mp (hx.symm.trans hx')
      rfl

theorem legible_null (hstrip : py.strip = ServerReader.strip) (hf : (Frame.bulk line []).Sized py)
    (hline : 10 ∉ line) {len : Int} (hlen : number py py.intOf line = some len) (hneg : len < 0) :
    BothRead py (.bulk line []) .none := by
  refine ⟨fun fuel hfuel => ?_, fun {n rest a r} hread => ?_⟩
  · obtain ⟨fuel, rfl, -⟩ := fuel_line hfuel
    rw [Frame.tail, List.append_nil]
    exact (client_null hline hlen hneg).bind_pure (Reader.reads_pure _)
  · cases n with
    | zero => cases hread
    | succ n =>
      obtain ⟨-, len', hlen', ⟨-, rfl, -⟩ | ⟨hpos, -⟩⟩ := (server_bulk hstrip hf).mp hread
      · rfl
      · obtain rfl := Option.some_inj.mp (hlen.symm.trans hlen')
        omega

theorem legible_text (hstrip : py.strip = ServerReader.strip) {text : String}
    (hf : (Frame.bulk line (encode text ++ crlf)).Sized py) (hline : 10 ∉ line)
    (hlen : number py py.intOf line = some ((encode text).length : Int)) :
    BothRead py (.bulk line (encode text ++ crlf)) (.str text) := by
  refine ⟨fun fuel hfuel => ?_, fun {n rest a r} hread => ?_⟩
  · obtain ⟨fuel, rfl, -⟩ := fuel_line hfuel
    have hread : Reader.Reads (ClientReader.readBlobStr py) (line ++ crlf ++ (encode text ++ crlf)) (some text) :=
      (client_sized hline hlen).bind_pure
        ((Reader.reads_ofOption (decode_encode text)).bind_pure (Reader.reads_pure _))
    exact hread.bind_pure (Reader.reads_pure _)
  · cases n with
    | zero => cases hread
    | succ n =>
      obtain ⟨-, len', hlen', ⟨hneg, -⟩ | ⟨-, ⟨x, hx, rfl⟩, -⟩⟩ := (server_bulk hstrip hf).mp hread
      · obtain rfl := Option.some_inj.mp (hlen.symm.trans hlen')
        omega
      · obtain rfl := List.append_cancel_right hx
        rw [decoded, decode_encode]
        rfl

theorem length_text {len : Int} {text : String}
    (hdata : (encode text ++ crlf).length = if len < 0 then 0 else len.toNat + 2) :
    len = (encode text).length := by
  rw [List.length_append, crlf, List.length_cons, List.length_cons, List.length_nil] at hdata
  split at hdata <;> omega

mutual

theorem legible_read (hstrip : py.strip = ServerReader.strip) : ∀ f : Frame, f.Sized py → f.Legible py →
    ∃ v, BothRead py f v
  | .int line, hf, ⟨hline, k, hk⟩ => ⟨.int k, legible_int hstrip hf hline hk⟩
  | .float line, hf, ⟨hline, x, hx⟩ => ⟨.float x, legible_float hstrip hf hline hx⟩
  | .bulk line data, hf, ⟨hline, len, hlen, htext⟩ => by
    have hdata := hf.2 len hlen
    obtain hneg | ⟨text, rfl⟩ := htext
    · rw [if_pos hneg] at hdata
      obtain rfl := List.length_eq_zero_iff.mp hdata
      exact ⟨.none, legible_null hstrip hf hline hlen hneg⟩
    · obtain rfl := length_text hdata
      exact ⟨.str text, legible_text hstrip hf hline hlen⟩
  | .array line items, hf, ⟨hline, ⟨len, hlen, hpos⟩, hitems⟩ => by
    obtain ⟨hcrlf, hcount, hsized⟩ := hf
    obtain rfl : len = items.length := (hcount len hlen).resolve_left (by omega)
    obtain ⟨vs, hvs, hserver⟩ := legible_read_items hstrip items hsized hitems
    refine ⟨.list vs, fun fuel hfuel => ?_, fun {n rest a r} hread => ?_⟩
    · obtain ⟨fuel, rfl, htails⟩ := fuel_line hfuel
      exact (client_number hline hlen).bind ((hvs fuel htails).bind_pure (Reader.reads_pure _))
    · cases n with
      | zero => cases hread
      | succ n =>
        rw [Frame.marker, Frame.tail, List.append_assoc] at hread
        obtain ⟨-, as, hlen', rfl, hreads⟩ := (server_array hstrip hcrlf).mp hread
        have hlength : as.length = items.length :=
          Int.ofNat_inj.mp (Option.some_inj.mp (hlen'.symm.trans hlen))
        rw [hlength] at hreads
        rw [decoded, hserver hreads]
        rfl

theorem legible_read_items (hstrip : py.strip = ServerReader.strip) : ∀ fs : List Frame, SizedItems py fs →
    LegibleItems py fs → ∃ vs, (∀ fuel, (tails fs).length ≤ fuel →
        Reader.Reads (ClientReader.readArray py fuel fs.length) (tails fs) vs) ∧
      ∀ {n rest as r}, Scan.times (Scan.next >>= ServerReader.receiveResp py n) fs.length (tails fs ++ rest) =
        .done as r → decodedItems as = some vs
  | [], _, _ => by
    refine ⟨[], fun fuel _ => ?_, fun {n rest as r} hread => ?_⟩
    · cases fuel <;> exact Reader.reads_pure _
    · cases hread
      rfl
  | f :: fs, hf, hs => by
    obtain ⟨v, hv, hserver⟩ := legible_read hstrip f hf.1 hs.1
    obtain ⟨vs, hvs, hservers⟩ := legible_read_items hstrip fs hf.2 hs.2
    refine ⟨v :: vs, fun fuel hfuel => ?_, fun {n rest as r} hdone => ?_⟩
    · rw [tails, List.length_append, List.length_cons] at hfuel
      obtain ⟨fuel, rfl⟩ : ∃ k, fuel = k + 1 := Nat.exists_eq_succ_of_ne_zero (by omega)
      rw [List.length_cons, ClientReader.readArray_succ]
      refine (Reader.reads_next f.marker).bind ?_
      exact (hv fuel (by omega)).bind ((hvs fuel (by omega)).bind_pure (Reader.reads_pure _))
    · obtain ⟨a, as, rfl, ⟨-, hread, hreads⟩ | ⟨rfl, rfl, hread⟩⟩ :=
        times_frames (server_done hstrip f hf.1) hdone
      · rw [decodedItems, hserver hread, hservers hreads]
        rfl
      · have hnone : decodedItems [] = some vs := @hservers n [] [] _ rfl
        rw [decodedItems, hserver hread, hnone]
        rfl

end

theorem readArray_negative (fuel : Nat) {len : Int} (hneg : len < 0) (s : Bytes) :
    ClientReader.readArray py fuel len s = none := by
  induction fuel generalizing len s with
  | zero =>
    rw [ClientReader.readArray, if_neg (by omega)]
    rfl
  | succ fuel ih =>
    rw [ClientReader.readArray, if_neg (by omega)]
    apply Option.eq_none_iff_forall_ne_some.mpr
    rintro ⟨vs, rest⟩ h
    obtain ⟨c, s, -, h⟩ := Reader.bind_taken h
    obtain ⟨v, s, -, h⟩ := Reader.bind_taken h
    obtain ⟨vs, s, h, -⟩ := Reader.bind_taken h
    rw [ih (by omega)] at h
    cases h

mutual

theorem illegible (hstrip : py.strip = ServerReader.strip) : ∀ f : Frame, f.Sized py → ¬ f.Legible py →
    ∀ fuel, f.tail.length ≤ fuel → Reader.Fails (ClientReader.receiveResp py fuel f.marker) f.tail
  | .int line, hf, hs, fuel, hfuel => by
    rw [Frame.tail, ← List.append_nil (line ++ crlf)] at hfuel
    obtain ⟨fuel, rfl, -⟩ := fuel_line hfuel
    exact (client_no_number hf hs).bind
  | .float line, hf, hs, fuel, hfuel => by
    rw [Frame.tail, ← List.append_nil (line ++ crlf)] at hfuel
    obtain ⟨fuel, rfl, -⟩ := fuel_line hfuel
    exact (client_no_number hf hs).bind
  | .bulk line data, hf, hs, fuel, hfuel => by
    obtain ⟨fuel, rfl, -⟩ := fuel_line hfuel
    by_cases hnumber : 10 ∉ line ∧ ∃ len, number py py.intOf line = some len
    · obtain ⟨hline, len, hlen⟩ := hnumber
      have hpos : ¬ len < 0 := fun hneg => hs ⟨hline, len, hlen, .inl hneg⟩
      have hdata := hf.2 len hlen
      rw [if_neg hpos] at hdata
      have hno : ¬ ∃ text, data = encode text ++ crlf := fun htext => hs ⟨hline, len, hlen, .inr htext⟩
      exact (client_no_text hline hlen (by omega) hdata hno).bind
    · have hint : Reader.Fails (ClientReader.readInt py) (line ++ crlf ++ data) :=
        (client_no_number hf.1 hnumber).append data
      have hblob : Reader.Fails (ClientReader.readBlobStr py) (line ++ crlf ++ data) := hint.bind.bind
      exact hblob.bind
  | .array line items, hf, hs, fuel, hfuel => by
    obtain ⟨fuel, rfl, htails⟩ := fuel_line hfuel
    obtain ⟨hcrlf, hcount, hsized⟩ := hf
    by_cases hnumber : 10 ∉ line ∧ ∃ len, number py py.intOf line = some len
    · obtain ⟨hline, len, hlen⟩ := hnumber
      refine (client_number hline hlen).bind_fails (Reader.Fails.bind ?_)
      obtain hneg | rfl := hcount len hlen
      · exact fun rest => readArray_negative fuel hneg _
      · have hitems : ¬ LegibleItems py items := fun hitems => hs ⟨hline, ⟨_, hlen, by omega⟩, hitems⟩
        exact illegible_items hstrip items hsized hitems fuel htails
    · have hint : Reader.Fails (ClientReader.readInt py) (line ++ crlf ++ tails items) :=
        (client_no_number hcrlf hnumber).append _
      exact hint.bind

theorem illegible_items (hstrip : py.strip = ServerReader.strip) : ∀ fs : List Frame,
    SizedItems py fs → ¬ LegibleItems py fs → ∀ fuel, (tails fs).length ≤ fuel →
    Reader.Fails (ClientReader.readArray py fuel fs.length) (tails fs)
  | [], _, hs => absurd trivial hs
  | f :: fs, hf, hs => by
    intro fuel hfuel
    rw [tails, List.length_append, List.length_cons] at hfuel
    obtain ⟨fuel, rfl⟩ : ∃ k, fuel = k + 1 := Nat.exists_eq_succ_of_ne_zero (by omega)
    rw [List.length_cons, ClientReader.readArray_succ]
    refine (Reader.reads_next f.marker).bind_fails ?_
    by_cases hlegible : f.Legible py
    · obtain ⟨v, hv, -⟩ := legible_read hstrip f hf.1 hlegible
      have hitems : ¬ LegibleItems py fs := fun hitems => hs ⟨hlegible, hitems⟩
      exact (hv fuel (by omega)).bind_fails (illegible_items hstrip fs hf.2 hitems fuel (by omega)).bind
    · exact ((illegible hstrip f hf.1 hlegible fuel (by omega)).append _).bind

end

theorem serverReads_none {c : UInt8} {s : Bytes}
    (h : ∀ a r, ServerReader.receiveResp py n c s ≠ .done a r) : serverReads py n c s = none := by
  rw [serverReads]
  split
  · next a r ha => exact absurd ha (h a r)
  · rfl

theorem client_legible (hstrip : py.strip = ServerReader.strip) {f : Frame} (hf : f.Sized py)
    (hl : f.Legible py) : ∃ v, (∀ rest, clientReads py f.marker (f.tail ++ rest) = some (v, rest)) ∧
      ∀ {n rest a r}, ServerReader.receiveResp py n f.marker (f.tail ++ rest) = .done a r →
        decoded a = some v := by
  obtain ⟨v, hclient, hserver⟩ := legible_read hstrip f hf hl
  refine ⟨v, fun rest => hclient _ ?_ rest, hserver⟩
  rw [List.length_append]
  omega

theorem client_illegible (hstrip : py.strip = ServerReader.strip) {f : Frame} (hf : f.Sized py)
    (hl : ¬ f.Legible py) (rest : Bytes) : clientReads py f.marker (f.tail ++ rest) = none := by
  refine illegible hstrip f hf hl _ ?_ rest
  rw [List.length_append]
  omega

theorem agree_whole (hstrip : py.strip = ServerReader.strip) {f : Frame} (hf : f.Sized py)
    (hn : f.nesting < n) (hserved : f.Legible py → f.Served py [])
    (hlegible : ∀ after, f.Served py after → f.Legible py) (rest : Bytes) :
    Agree py n f.marker (f.tail ++ rest) := by
  by_cases hl : f.Legible py
  · obtain ⟨v, hclient, hvalue⟩ := client_legible hstrip hf hl
    obtain ⟨a, hread⟩ := served_read hstrip f hf (hserved hl)
    have hdone : ServerReader.receiveResp py n f.marker (f.tail ++ rest) = .done a rest := hread n rest hn
    rw [Agree, hclient, serverReads, hdone, Option.map_some, ← hvalue hdone]
  · rw [Agree, client_illegible hstrip hf hl, Option.map_none]
    refine serverReads_none fun a r hdone => ?_
    obtain ⟨after, hafter, -⟩ := server_done hstrip f hf hdone
    exact hl (hlegible after hafter)

theorem agree_cut (hstrip : py.strip = ServerReader.strip) {f : Frame} (hf : f.Sized py) {s t : Bytes}
    (hcut : s ++ t = f.tail) (ht : t ≠ []) : Agree py n f.marker s := by
  have hserver : serverReads py n f.marker s = none := by
    refine serverReads_none fun a r hdone => ?_
    cases n with
    | zero => cases hdone
    | succ n =>
      have hrecognises : Scan.Recognises (ServerReader.receiveResp py (n + 1) f.marker) _ :=
        ServerReader.recognises_marked f.marker (ServerReader.recognises_resp n)
      have hwhole := hrecognises.done hdone t
      rw [hcut, ← List.append_nil f.tail] at hwhole
      obtain ⟨after, -, hrest⟩ := server_done hstrip f hf hwhole
      exact ht (List.append_eq_nil_iff.mp (List.append_eq_nil_iff.mp hrest.symm).2).2
  have hclient : clientReads py f.marker s = none := by
    apply Option.eq_none_iff_forall_ne_some.mpr
    intro ⟨v, r⟩ hv
    have hfuel : s.length + 1 ≤ f.tail.length + 1 := by
      rw [← hcut, List.length_append]
      omega
    have hread : clientReads py f.marker f.tail = some (v, r ++ t) := by
      rw [clientReads, ← hcut]
      rw [← hcut] at hfuel
      exact (ClientReader.extends_resp hfuel).1 f.marker hv t
    rw [← List.append_nil f.tail] at hread
    by_cases hl : f.Legible py
    · obtain ⟨v', hclient, -⟩ := client_legible hstrip hf hl
      rw [hclient] at hread
      exact ht (List.append_eq_nil_iff.mp (Prod.mk.inj (Option.some_inj.mp hread)).2.symm).2
    · rw [client_illegible hstrip hf hl] at hread
      cases hread
  rw [Agree, hserver, hclient, Option.map_none]

/-- The server and the client agree on a frame, whole or cut off, and on where
it ends, if and only if both can take it as it is or neither can, whatever comes
after it. -/
theorem readers_agree (hstrip : py.strip = ServerReader.strip) {f : Frame} (hf : f.Sized py)
    (hn : f.nesting < n) :
    (∀ s, f.tail <+: s ∨ s <+: f.tail → Agree py n f.marker s) ↔
      (f.Legible py → f.Served py []) ∧ ∀ after, f.Served py after → f.Legible py := by
  constructor
  · intro hagree
    constructor
    · intro hl
      have hall := hagree (f.tail ++ []) (.inl (List.prefix_append _ _))
      obtain ⟨v, hclient, -⟩ := client_legible hstrip hf hl
      rw [Agree, hclient, serverReads] at hall
      split at hall
      · next a r hdone =>
        obtain ⟨after, hserved, hafter⟩ := server_done hstrip f hf hdone
        obtain rfl := (List.append_eq_nil_iff.mp hafter.symm).1
        exact hserved
      · cases hall
    · intro after hserved
      by_contra hl
      have hall := hagree (f.tail ++ (after ++ [])) (.inl (List.prefix_append _ _))
      obtain ⟨a, hread⟩ := served_read hstrip f hf hserved
      rw [Agree, client_illegible hstrip hf hl, serverReads, hread n [] hn] at hall
      cases hall
  · rintro ⟨hserved, hlegible⟩ s (⟨rest, rfl⟩ | ⟨t, ht⟩)
    · exact agree_whole hstrip hf hn hserved hlegible rest
    · by_cases hnil : t = []
      · rw [hnil, List.append_nil] at ht
        have hwhole := agree_whole hstrip hf hn hserved hlegible []
        rwa [← ht, List.append_nil] at hwhole
      · exact agree_cut hstrip hf ht hnil

theorem number_str (k : Int) : number py py.intOf (encode (toString k)) = some k := by
  rw [number, decode_encode, Option.bind_some, py.strip_graphic _ (graphic_str k), py.intOf_str]

theorem number_float (x : FloatValue) : number py py.floatOf (encode (py.strFloat x)) = some x := by
  rw [number, decode_encode, Option.bind_some, py.strip_graphic _ (py.strFloat_graphic x), py.floatOf_str]

def nullFrame : Frame := .bulk (encode "-1") []

theorem nullFrame_wire : packNull = nullFrame.marker :: nullFrame.tail := by decide

theorem nullFrame_sized : nullFrame.Sized py := by
  refine ⟨no_crlf (by decide), fun len hlen => ?_⟩
  have hnumber : number py py.intOf (encode "-1") = some (-1) := number_str (-1)
  obtain rfl := Option.some_inj.mp (hnumber.symm.trans hlen)
  rfl

theorem nullFrame_legible : nullFrame.Legible py := ⟨by decide, -1, number_str (-1), .inl (by decide)⟩

mutual

def framed (py : Builtins) : Value → Option Frame
  | .none => some nullFrame
  | .int n => some (.int (encode (toString n)))
  | .float x => some (.float (encode (py.strFloat x)))
  | .str s => some (.bulk (encode (toString (encode s).length)) (encode s ++ crlf))
  | .list items | .tuple items => (framedItems py items).map (.array (encode (toString items.length)))
  | .bool _ | .bytes _ | .dict _ => none

def framedItems (py : Builtins) : List Value → Option (List Frame)
  | [] => some []
  | v :: vs => do return (← framed py v) :: (← framedItems py vs)

end

theorem framedItems_cons {v : Value} {vs : List Value} {fs : List Frame}
    (h : framedItems py (v :: vs) = some fs) :
    ∃ f fs', framed py v = some f ∧ framedItems py vs = some fs' ∧ fs = f :: fs' := by
  rw [framedItems] at h
  obtain ⟨f, hf, h⟩ := Option.bind_eq_some_iff.mp h
  obtain ⟨fs', hfs, h⟩ := Option.bind_eq_some_iff.mp h
  exact ⟨f, fs', hf, hfs, (Option.some_inj.mp h).symm⟩

theorem packed_array {k : Nat} {fs : List Frame} {w : Bytes} (hlength : fs.length = k) (hw : w = tails fs)
    (hsized : SizedItems py fs) (hlegible : LegibleItems py fs) :
    encode "*" ++ encode (toString k) ++ crlf ++ w =
        (Frame.array (encode (toString k)) fs).marker :: (Frame.array (encode (toString k)) fs).tail ∧
      (Frame.array (encode (toString k)) fs).Sized py ∧ (Frame.array (encode (toString k)) fs).Legible py := by
  have hnumber : number py py.intOf (encode (toString k)) = some (k : Int) := number_str k
  have hline : 10 ∉ encode (toString k) := graphic_newline (graphic_repr k)
  refine ⟨?_, ⟨no_crlf hline, fun len hlen => .inr ?_, hsized⟩, hline, ⟨k, hnumber, by omega⟩, hlegible⟩
  · rw [hw, Frame.tail, List.append_assoc, List.append_assoc, List.append_assoc]
    rfl
  · obtain rfl := Option.some_inj.mp (hnumber.symm.trans hlen)
    rw [hlength]

mutual

theorem packed_frame : ∀ (v : Value) {f : Frame}, framed py v = some f →
    packResp py v = some (f.marker :: f.tail) ∧ f.Sized py ∧ f.Legible py
  | .none, f, h => by
    cases h
    exact ⟨congrArg some nullFrame_wire, nullFrame_sized, nullFrame_legible⟩
  | .int n, f, h => by
    cases h
    have hline : 10 ∉ encode (toString n) := graphic_newline (graphic_str n)
    refine ⟨?_, no_crlf hline, hline, n, number_str n⟩
    rw [packResp, packInt, Frame.tail, List.append_assoc]
    rfl
  | .float x, f, h => by
    cases h
    have hline : 10 ∉ encode (py.strFloat x) := graphic_newline (py.strFloat_graphic x)
    refine ⟨?_, no_crlf hline, hline, x, number_float x⟩
    rw [packResp, packFloat, Frame.tail, List.append_assoc]
    rfl
  | .str s, f, h => by
    cases h
    have hnumber : number py py.intOf (encode (toString (encode s).length)) =
        some ((encode s).length : Int) := number_str (encode s).length
    have hline : 10 ∉ encode (toString (encode s).length) := graphic_newline (graphic_repr _)
    refine ⟨?_, ⟨no_crlf hline, fun len hlen => ?_⟩, hline, _, hnumber, .inr ⟨s, rfl⟩⟩
    · simp only [packResp, packBlobStr, Frame.tail, List.append_assoc]
      rfl
    · obtain rfl := Option.some_inj.mp (hnumber.symm.trans hlen)
      rw [if_neg (by omega), List.length_append, crlf]
      rfl
  | .list items, f, h => by
    obtain ⟨fs, hfs, rfl⟩ := Option.map_eq_some_iff.mp h
    obtain ⟨hlength, hpack, hsized, hlegible⟩ := packed_frames items hfs
    obtain ⟨hwire, hframe⟩ := packed_array hlength rfl hsized hlegible
    refine ⟨?_, hframe⟩
    rw [packResp, hpack, Option.map_some, hwire]
  | .tuple items, f, h => by
    obtain ⟨fs, hfs, rfl⟩ := Option.map_eq_some_iff.mp h
    obtain ⟨hlength, hpack, hsized, hlegible⟩ := packed_frames items hfs
    obtain ⟨hwire, hframe⟩ := packed_array hlength rfl hsized hlegible
    refine ⟨?_, hframe⟩
    rw [packResp, hpack, Option.map_some, hwire]

theorem packed_frames : ∀ (vs : List Value) {fs : List Frame}, framedItems py vs = some fs →
    fs.length = vs.length ∧ packItems py vs = some (tails fs) ∧ SizedItems py fs ∧ LegibleItems py fs
  | [], _, h => by
    cases h
    exact ⟨rfl, rfl, trivial, trivial⟩
  | v :: vs, _, h => by
    obtain ⟨f, fs, hf, hfs, rfl⟩ := framedItems_cons h
    obtain ⟨hpack, hsized, hlegible⟩ := packed_frame v hf
    obtain ⟨hlength, hpacks, hsizeds, hlegibles⟩ := packed_frames vs hfs
    refine ⟨by rw [List.length_cons, List.length_cons, hlength], ?_, ⟨hsized, hsizeds⟩, hlegible, hlegibles⟩
    rw [packItems, hpack, hpacks, tails]
    rfl

end

noncomputable def stripped : Builtins :=
  { Ascii.ascii with
    strip := ServerReader.strip
    strip_graphic := fun _ hs => Pipeline.strip_word (Pipeline.isspace_graphic hs) }

def pairFrame : Frame := .array (encode "2") [.int (encode "5"), .bulk (encode "2") (encode "ok\r\n")]

theorem readers_agree_pair :
    packResp stripped (.list [.int 5, .str "ok"]) = some (pairFrame.marker :: pairFrame.tail) ∧
      ∀ s, pairFrame.tail <+: s ∨ s <+: pairFrame.tail → Agree stripped 2 pairFrame.marker s := by
  have hframe : framed stripped (.list [.int 5, .str "ok"]) = some pairFrame := rfl
  obtain ⟨hpack, hsized, hlegible⟩ := packed_frame _ hframe
  have hint : (Frame.int (encode "5")).Served stripped [] := ⟨by decide, ⟨5, number_str 5⟩, rfl⟩
  have hbulk : (Frame.bulk (encode "2") (encode "ok\r\n")).Served stripped [] :=
    ⟨by decide, 2, number_str 2, .inr ⟨by decide, ⟨encode "ok", by decide⟩, rfl⟩⟩
  have hserved : pairFrame.Served stripped [] :=
    ⟨by decide, ⟨2, number_str 2, by decide⟩, .inl ⟨hint, .inl ⟨hbulk, rfl⟩⟩⟩
  exact ⟨hpack, (readers_agree rfl hsized (by decide)).mpr ⟨fun _ => hserved, fun _ _ => hlegible⟩⟩

/-- What `pack_resp` writes for `None` is read by the client, and the server
wants two more bytes after it. -/
theorem null_read_apart : packResp stripped .none = some (nullFrame.marker :: nullFrame.tail) ∧
    clientReads stripped nullFrame.marker nullFrame.tail = some (.none, []) ∧
    serverReads stripped 1 nullFrame.marker nullFrame.tail = none ∧
    clientReads stripped nullFrame.marker (nullFrame.tail ++ crlf) = some (.none, crlf) ∧
    serverReads stripped 1 nullFrame.marker (nullFrame.tail ++ crlf) = some (some .none, []) := by
  have hline : 10 ∉ encode "-1" := by decide
  have hnumber : number stripped stripped.intOf (encode "-1") = some (-1) := number_str (-1)
  have hsized : nullFrame.Sized stripped := nullFrame_sized
  have hclient : ∀ rest, clientReads stripped nullFrame.marker (nullFrame.tail ++ rest) = some (.none, rest) :=
    (client_null hline hnumber (by decide)).bind_pure (Reader.reads_pure Value.none)
  have hserver : ServerReader.receiveResp stripped 1 nullFrame.marker (nullFrame.tail ++ crlf) =
      .done .null [] :=
    (server_bulk rfl hsized).mpr ⟨by decide, -1, hnumber, .inl ⟨by decide, rfl, rfl⟩⟩
  refine ⟨congrArg some nullFrame_wire, hclient [], ?_, hclient crlf, ?_⟩
  · refine serverReads_none fun a r hdone => ?_
    rw [← List.append_nil nullFrame.tail] at hdone
    obtain ⟨-, len, hlen, ⟨-, -, hrest⟩ | ⟨hpos, -⟩⟩ := (server_bulk rfl hsized).mp hdone
    · cases hrest
    · obtain rfl := Option.some_inj.mp (hnumber.symm.trans hlen)
      exact absurd hpos (by decide)
  · rw [serverReads, hserver]
    rfl

end Livelock.ReaderAgreement
