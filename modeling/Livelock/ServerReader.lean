import Livelock.Server
import Livelock.Lib.Scan
import Mathlib.Data.List.DropRight
import Mathlib.Data.List.Infix

namespace Livelock.ServerReader

open Livelock.Lib Livelock.Shared Livelock.Server
open Livelock.Lib.Scan (Lang Recognises endless next ofOption raise take times)

def isspace (c : Char) : Bool :=
  let n := c.toNat
  decide (9 ≤ n ∧ n ≤ 13 ∨ 28 ≤ n ∧ n ≤ 32 ∨ 0x2000 ≤ n ∧ n ≤ 0x200a) ||
    n ∈ [0x85, 0xa0, 0x1680, 0x2028, 0x2029, 0x202f, 0x205f, 0x3000]

def strip (s : String) : String := String.ofList ((s.toList.dropWhile isspace).rdropWhile isspace)

def split (s : String) : List String := (s.toList.splitOn ' ').map String.ofList

/-- The default limit of a `StreamReader`. -/
def streamLimit : Nat := 2 ^ 16

/-- The stream up to its first CR LF, and what comes after. -/
def splitLine : Bytes → Option (Bytes × Bytes)
  | [] => none
  | b :: s =>
    if crlf.isPrefixOf (b :: s) then some ([], s.drop 1)
    else (splitLine s).map fun p => (b :: p.1, p.2)

/-- `readuntil(b'\r\n')`, which raises as soon as the line is too long. -/
def readuntil : Scan UInt8 Bytes := fun s =>
  match splitLine s with
  | some (line, rest) => if line.length ≤ streamLimit then .done (line ++ crlf) rest else .raised
  | none => if streamLimit + 1 < s.length then .raised else .more

variable (py : Builtins)

def readInt : Scan UInt8 Int := do
  let line ← readuntil
  ofOption ((decode line).bind fun text => py.intOf (strip text))

def readFloat : Scan UInt8 FloatValue := do
  let line ← readuntil
  ofOption ((decode line).bind fun text => py.floatOf (strip text))

def checkBytes (len : Int) (line : Bytes) : Option (Option Bytes) :=
  if line.getLast? ≠ some 10 then none
  else if line.dropLast.getLast? ≠ some 13 then none
  else if len < 0 then some none
  else if len = 0 then some (some [])
  else some (some line.dropLast.dropLast)

def readBytes : Scan UInt8 (Option Bytes) := do
  let len ← readInt py
  let line ← take (max 2 (len + 2)).toNat
  ofOption (checkBytes len line)

/-- The loop of `_read_array` counts down and ends at zero only. -/
def readArray (value : Scan UInt8 Arg) : Scan UInt8 (List Arg) := do
  let len ← readInt py
  if len < 0 then endless value else times value len.toNat

/-- The rest of a value after its marker. The nesting of arrays is bounded, as
the nesting of calls is by the interpreter. -/
def receiveResp : Nat → UInt8 → Scan UInt8 Arg
  | 0, _ => raise
  | depth + 1, c =>
    if c = ':'.toUInt8 then do return .int (← readInt py)
    else if c = '$'.toUInt8 then do return (← readBytes py).elim .null .bytes
    else if c = '*'.toUInt8 then do return .array (← readArray py (next >>= receiveResp depth))
    else if c = ','.toUInt8 then do return .float (← readFloat py)
    else raise

def markers : Bytes := encode ":*$,"

/-- A value that is not an array is a request of one part. -/
def asRequest : Arg → List Arg
  | .array value => value
  | value => [value]

def rawRequest (text : String) : List Arg := (split text).map fun x => .bytes (encode (strip x))

def readCommand (depth : Nat) : Scan UInt8 (List Arg) := do
  let c ← next
  if c ∈ markers then return asRequest (← receiveResp py depth c)
  else
    let line ← readuntil
    ofOption ((decode (c :: line)).map rawRequest)

/-- Where the loop of `receive_commands` is: it waits for more than `rest`, or
it is over. -/
inductive Loop (σ : Type)
  | waiting (st : σ) (rest : Bytes)
  | ended (st : σ) (rest : Bytes)

/-- The loop of `receive_commands` on the bytes that have come so far. The
dispatch of a command says whether the loop goes on after it. Every command
takes a byte, so as many rounds as there are bytes are enough. -/
def receiveCommands {σ : Type} (depth : Nat) (dispatch : σ → List Arg → σ × Bool) :
    Nat → σ → Bytes → Loop σ
  | 0, st, s => .waiting st s
  | fuel + 1, st, s =>
    match readCommand py depth s with
    | .more => .waiting st s
    | .raised => .ended st s
    | .done value rest =>
      if (dispatch st value).2 then receiveCommands depth dispatch fuel (dispatch st value).1 rest
      else .ended (dispatch st value).1 rest

def Line (line : Bytes) : Prop := ¬ crlf <:+: line ∧ line.length ≤ streamLimit

variable {py} {w line rest s : Bytes}

theorem splitLine_none (h : splitLine s = none) : ¬ crlf <:+: s := by
  induction s with
  | nil => decide
  | cons b s ih =>
    unfold splitLine at h
    split at h
    · cases h
    · next hp =>
      rw [List.isPrefixOf_iff_prefix] at hp
      rw [List.infix_cons_iff, not_or]
      exact ⟨hp, ih (Option.map_eq_none_iff.mp h)⟩

theorem splitLine_some (h : splitLine s = some (line, rest)) :
    s = line ++ crlf ++ rest ∧ ¬ crlf <:+: line := by
  induction s generalizing line with
  | nil => cases h
  | cons b s ih =>
    unfold splitLine at h
    split at h
    · next hp =>
      cases h
      obtain ⟨r, hr⟩ := List.isPrefixOf_iff_prefix.mp hp
      obtain ⟨rfl, rfl⟩ := List.cons.inj hr
      exact ⟨rfl, by decide⟩
    · next hp =>
      obtain ⟨⟨line', rest'⟩, hs, he⟩ := Option.map_eq_some_iff.mp h
      cases he
      obtain ⟨rfl, hline⟩ := ih hs
      rw [List.isPrefixOf_iff_prefix] at hp
      refine ⟨rfl, ?_⟩
      rw [List.infix_cons_iff, not_or]
      refine ⟨fun hpre => hp (hpre.trans ?_), hline⟩
      exact ⟨crlf ++ rest', by simp⟩

theorem splitLine_line (h : ¬ crlf <:+: line) (rest : Bytes) :
    splitLine (line ++ crlf ++ rest) = some (line, rest) := by
  induction line with
  | nil => rfl
  | cons b line ih =>
    rw [List.infix_cons_iff, not_or] at h
    have hp : ¬ crlf.isPrefixOf (b :: (line ++ crlf ++ rest)) = true := by
      rw [List.isPrefixOf_iff_prefix]
      rintro ⟨r, hr⟩
      obtain ⟨rfl, htail⟩ := List.cons.inj hr
      cases line with
      | nil => cases htail
      | cons b' line =>
        obtain ⟨rfl, -⟩ := List.cons.inj htail
        exact h.1 ⟨line, rfl⟩
    show splitLine (b :: (line ++ crlf ++ rest)) = _
    rw [splitLine, if_neg hp, ih h.2]
    rfl

theorem recognises_readuntil :
    Recognises readuntil fun w v => w = v ∧ ∃ line, v = line ++ crlf ∧ Line line where
  takes := by
    rintro w _ ⟨rfl, line, rfl, hline, hlen⟩ rest
    rw [readuntil, splitLine_line hline]
    exact if_pos hlen
  taken := by
    intro s v rest h
    unfold readuntil at h
    split at h
    · next line rest' hs =>
      split at h
      · next hlen =>
        cases h
        obtain ⟨rfl, hline⟩ := splitLine_some hs
        exact ⟨_, rfl, rfl, line, rfl, hline, hlen⟩
      · cases h
    · split at h <;> cases h
  raises := by
    intro s h t
    unfold readuntil at h
    split at h
    · next line rest hs =>
      split at h
      · cases h
      · next hlen =>
        obtain ⟨rfl, hline⟩ := splitLine_some hs
        rw [readuntil, List.append_assoc, splitLine_line hline]
        exact if_neg hlen
    · next hs =>
      split at h
      · next hlong =>
        unfold readuntil
        split
        · next line rest hst =>
          -- a line that is short enough would have been found before
          refine if_neg fun hlen => splitLine_none hs ?_
          obtain ⟨hsplit, -⟩ := splitLine_some hst
          have hprefix : line ++ crlf <+: s := by
            refine List.prefix_of_prefix_length_le (hsplit ▸ List.prefix_append _ rest)
              (List.prefix_append s t) ?_
            rw [List.length_append, crlf, List.length_cons, List.length_cons, List.length_nil]
            omega
          exact (List.suffix_append line crlf).isInfix.trans hprefix.isInfix
        · exact if_pos (by rw [List.length_append]; omega)
      · cases h

def Number {α : Type} (ofText : String → Option α) : Lang UInt8 α := fun w x =>
  ∃ line text, w = line ++ crlf ∧ Line line ∧ decode w = some text ∧ ofText (strip text) = some x

theorem recognises_number {α : Type} (ofText : String → Option α) :
    Recognises (do let line ← readuntil; ofOption ((decode line).bind fun text => ofText (strip text)))
      (Number ofText) := by
  refine (recognises_readuntil.bind_option fun line =>
    (decode line).bind fun text => ofText (strip text)).congr fun w x => ?_
  constructor
  · rintro ⟨_, ⟨rfl, line, rfl, hline⟩, hx⟩
    obtain ⟨text, htext, hx⟩ := Option.bind_eq_some_iff.mp hx
    exact ⟨line, text, rfl, hline, htext, hx⟩
  · rintro ⟨line, text, rfl, hline, htext, hx⟩
    exact ⟨_, ⟨rfl, line, rfl, hline⟩, Option.bind_eq_some_iff.mpr ⟨text, htext, hx⟩⟩

inductive Blob (py : Builtins) : Lang UInt8 (Option Bytes)
  | none {w : Bytes} {len : Int} : Number py.intOf w len → len < 0 → Blob py (w ++ crlf) .none
  | some {w data : Bytes} : Number py.intOf w data.length → Blob py (w ++ (data ++ crlf)) (.some data)

theorem ends_crlf {line : Bytes} (h : line.getLast? = some 10) (h' : line.dropLast.getLast? = some 13) :
    line = line.dropLast.dropLast ++ crlf := by
  obtain ⟨data, rfl⟩ := List.getLast?_eq_some_iff.mp h
  rw [List.dropLast_concat] at h' ⊢
  obtain ⟨data, rfl⟩ := List.getLast?_eq_some_iff.mp h'
  rw [List.dropLast_concat]
  simp [crlf]

theorem checkBytes_some {len : Int} {x : Option Bytes} (hlen : line.length = (max 2 (len + 2)).toNat)
    (h : checkBytes len line = some x) :
    (len < 0 ∧ line = crlf ∧ x = none) ∨
      ∃ data : Bytes, len = data.length ∧ line = data ++ crlf ∧ x = some data := by
  unfold checkBytes at h
  split at h
  · cases h
  split at h
  · cases h
  next hlf hcr =>
  have hline := ends_crlf (not_not.mp hlf) (not_not.mp hcr)
  have hdata : line.dropLast.dropLast.length = line.length - 2 := by
    rw [List.length_dropLast, List.length_dropLast]
    omega
  split at h
  · next hneg =>
    cases h
    have hnil : line.dropLast.dropLast = [] := List.length_eq_zero_iff.mp (by omega)
    rw [hnil] at hline
    exact .inl ⟨hneg, hline, rfl⟩
  split at h
  · next hzero =>
    cases h
    have hnil : line.dropLast.dropLast = [] := List.length_eq_zero_iff.mp (by omega)
    rw [hnil] at hline
    exact .inr ⟨[], hzero, hline, rfl⟩
  · cases h
    exact .inr ⟨_, by omega, hline, rfl⟩

theorem checkBytes_null {len : Int} (h : len < 0) : checkBytes len crlf = some none := by
  have hends : crlf.getLast? = some 10 ∧ crlf.dropLast.getLast? = some 13 := by decide
  unfold checkBytes
  rw [if_neg (not_not.mpr hends.1), if_neg (not_not.mpr hends.2), if_pos h]

theorem checkBytes_data (data : Bytes) : checkBytes data.length (data ++ crlf) = some (some data) := by
  have hsplit : data ++ crlf = (data ++ [13]) ++ [10] := by simp [crlf]
  have hneg : ¬ (data.length : Int) < 0 := by omega
  unfold checkBytes
  rw [hsplit, List.getLast?_concat, List.dropLast_concat, List.getLast?_concat, List.dropLast_concat,
    if_neg (not_not.mpr rfl), if_neg (not_not.mpr rfl), if_neg hneg]
  split
  · next hzero =>
    have hnil : data = [] := List.length_eq_zero_iff.mp (by omega)
    rw [hnil]
  · rfl

theorem recognises_bytes : Recognises (readBytes py) (Blob py) := by
  refine ((recognises_number py.intOf).bind fun len =>
    (Recognises.take _).bind_option (checkBytes len)).congr fun w x => ?_
  constructor
  · rintro ⟨len, u, v, rfl, hu, line, ⟨rfl, hlen⟩, hx⟩
    obtain ⟨hneg, rfl, rfl⟩ | ⟨data, rfl, rfl, rfl⟩ := checkBytes_some hlen hx
    · exact .none hu hneg
    · exact .some hu
  · intro h
    cases h with
    | @none u len hu hneg =>
      refine ⟨len, u, crlf, rfl, hu, crlf, ⟨rfl, ?_⟩, checkBytes_null hneg⟩
      have hmax : max 2 (len + 2) = 2 := by omega
      rw [hmax]
      rfl
    | @some u data hu =>
      refine ⟨data.length, u, data ++ crlf, rfl, hu, data ++ crlf, ⟨rfl, ?_⟩, checkBytes_data data⟩
      rw [List.length_append, crlf, List.length_cons, List.length_cons, List.length_nil]
      omega

/-- A value whose arrays are made of the values of `below`, with its marker. -/
inductive Layer (py : Builtins) (below : Lang UInt8 Arg) (c : UInt8) : Lang UInt8 Arg
  | int {w : Bytes} {n : Int} : c = ':'.toUInt8 → Number py.intOf w n → Layer py below c w (.int n)
  | float {w : Bytes} {x : FloatValue} :
      c = ','.toUInt8 → Number py.floatOf w x → Layer py below c w (.float x)
  | null {w : Bytes} : c = '$'.toUInt8 → Blob py w none → Layer py below c w .null
  | bytes {w data : Bytes} : c = '$'.toUInt8 → Blob py w (some data) → Layer py below c w (.bytes data)
  | array {w : Bytes} {ws : List Bytes} {items : List Arg} :
      c = '*'.toUInt8 → Number py.intOf w items.length → List.Forall₂ below ws items →
        Layer py below c (w ++ ws.flatten) (.array items)

def Resp (py : Builtins) : Nat → Lang UInt8 Arg
  | 0 => fun _ _ => False
  | depth + 1 => fun w v => ∃ c u, w = c :: u ∧ Layer py (Resp py depth) c u v

theorem recognises_array {value : Scan UInt8 Arg} {L : Lang UInt8 Arg} (h : Recognises value L) :
    Recognises (readArray py value) fun w items =>
      ∃ u ws, w = u ++ ws.flatten ∧ Number py.intOf u items.length ∧ List.Forall₂ L ws items := by
  refine ((recognises_number py.intOf).bind fun len =>
    (Recognises.ite (fun _ => h.endless) fun _ => h.times len.toNat)).congr fun w items => ?_
  constructor
  · rintro ⟨len, u, v, rfl, hu, hv⟩
    split at hv
    · exact hv.elim
    · next hlen =>
      obtain ⟨hcount, ws, rfl, hws⟩ := hv
      have heq : (items.length : Int) = len := by omega
      exact ⟨u, ws, rfl, heq ▸ hu, hws⟩
  · rintro ⟨u, ws, rfl, hu, hws⟩
    refine ⟨items.length, u, ws.flatten, rfl, hu, ?_⟩
    rw [if_neg (by omega)]
    exact ⟨by omega, ws, rfl, hws⟩

theorem recognises_marked {depth : Nat} (c : UInt8)
    (ih : Recognises (next >>= receiveResp py depth) (Resp py depth)) :
    Recognises (receiveResp py (depth + 1) c) (Layer py (Resp py depth) c) := by
  rw [receiveResp]
  refine (Recognises.ite (fun _ => (recognises_number py.intOf).map Arg.int) fun _ =>
    Recognises.ite (fun _ => recognises_bytes.map fun x => x.elim Arg.null Arg.bytes) fun _ =>
    Recognises.ite (fun _ => (recognises_array ih).map Arg.array) fun _ =>
    Recognises.ite (fun _ => (recognises_number py.floatOf).map Arg.float) fun _ => .raise).congr
    fun w v => ?_
  constructor
  · intro h
    split at h
    · next hc =>
      obtain ⟨n, hn, rfl⟩ := h
      exact .int hc hn
    split at h
    · next hc =>
      obtain ⟨x, hx, rfl⟩ := h
      cases x with
      | none => exact .null hc hx
      | some data => exact .bytes hc hx
    split at h
    · next hc =>
      obtain ⟨items, ⟨u, ws, rfl, hu, hws⟩, rfl⟩ := h
      exact .array hc hu hws
    split at h
    · next hc =>
      obtain ⟨x, hx, rfl⟩ := h
      exact .float hc hx
    · exact h.elim
  · intro h
    have hcolon : ':'.toUInt8 ∉ ['$'.toUInt8, '*'.toUInt8, ','.toUInt8] := by decide
    have hdollar : '$'.toUInt8 ∉ ['*'.toUInt8, ','.toUInt8] := by decide
    have hstar : '*'.toUInt8 ≠ ','.toUInt8 := by decide
    simp only [List.mem_cons, List.not_mem_nil, or_false, not_or] at hcolon hdollar
    cases h with
    | @int w n hc hn =>
      rw [if_pos hc]
      exact ⟨n, hn, rfl⟩
    | @null w hc hx =>
      subst hc
      rw [if_neg (Ne.symm hcolon.1), if_pos rfl]
      exact ⟨none, hx, rfl⟩
    | @bytes w data hc hx =>
      subst hc
      rw [if_neg (Ne.symm hcolon.1), if_pos rfl]
      exact ⟨some data, hx, rfl⟩
    | @array u ws items hc hu hws =>
      subst hc
      rw [if_neg (Ne.symm hcolon.2.1), if_neg (Ne.symm hdollar.1), if_pos rfl]
      exact ⟨items, ⟨u, ws, rfl, hu, hws⟩, rfl⟩
    | @float w x hc hx =>
      subst hc
      rw [if_neg (Ne.symm hcolon.2.2), if_neg (Ne.symm hdollar.2), if_neg (Ne.symm hstar), if_pos rfl]
      exact ⟨x, hx, rfl⟩

theorem recognises_resp (depth : Nat) : Recognises (next >>= receiveResp py depth) (Resp py depth) := by
  induction depth with
  | zero =>
    refine (Recognises.next.bind fun _ => Recognises.raise).congr fun w v => ?_
    simp [Resp]
  | succ depth ih =>
    refine (Recognises.next.bind fun c => recognises_marked c ih).congr fun w v => ?_
    constructor
    · rintro ⟨c, _, u, rfl, rfl, hu⟩
      exact ⟨c, u, rfl, hu⟩
    · rintro ⟨c, u, rfl, hu⟩
      exact ⟨c, [c], u, rfl, rfl, hu⟩

/-- A request as it stands in the stream: a value, or a line of words. -/
inductive Request (py : Builtins) (depth : Nat) : Lang UInt8 (List Arg)
  | resp {c : UInt8} {w : Bytes} {v : Arg} :
      c ∈ markers → Resp py depth (c :: w) v → Request py depth (c :: w) (asRequest v)
  | raw {c : UInt8} {line : Bytes} {text : String} : c ∉ markers → Line line →
      decode (c :: (line ++ crlf)) = some text → Request py depth (c :: (line ++ crlf)) (rawRequest text)

theorem recognises_rest (depth : Nat) (c : UInt8) :
    Recognises (receiveResp py depth c) fun w v => Resp py depth (c :: w) v := by
  cases depth with
  | zero => exact Recognises.raise
  | succ depth =>
    refine (recognises_marked c (recognises_resp depth)).congr fun w v => ?_
    constructor
    · intro h
      exact ⟨c, w, rfl, h⟩
    · rintro ⟨c', u, he, h⟩
      obtain ⟨rfl, rfl⟩ := List.cons.inj he
      exact h

theorem recognises_request (depth : Nat) : Recognises (readCommand py depth) (Request py depth) := by
  refine (Recognises.next.bind fun c => Recognises.ite
    (fun _ => (recognises_rest depth c).map asRequest)
    fun _ => recognises_readuntil.bind_option fun line => (decode (c :: line)).map rawRequest).congr
    fun w value => ?_
  constructor
  · rintro ⟨c, _, u, rfl, rfl, h⟩
    split at h
    · next hc =>
      obtain ⟨v, hv, rfl⟩ := h
      exact .resp hc hv
    · next hc =>
      obtain ⟨_, ⟨rfl, line, rfl, hline⟩, hvalue⟩ := h
      obtain ⟨text, htext, rfl⟩ := Option.map_eq_some_iff.mp hvalue
      exact .raw hc hline htext
  · intro h
    cases h with
    | @resp c w v hc hv =>
      refine ⟨c, [c], w, rfl, rfl, ?_⟩
      rw [if_pos hc]
      exact ⟨v, hv, rfl⟩
    | @raw c line text hc hline htext =>
      refine ⟨c, [c], line ++ crlf, rfl, rfl, ?_⟩
      rw [if_neg hc]
      exact ⟨_, ⟨rfl, line, rfl, hline⟩, Option.map_eq_some_iff.mpr ⟨text, htext, rfl⟩⟩

variable {σ : Type} {depth : Nat} {dispatch : σ → List Arg → σ × Bool} {st : σ}

def dispatchAll (dispatch : σ → List Arg → σ × Bool) (rest : Bytes) :
    σ → List (Bytes × List Arg) → Loop σ
  | st, [] => .waiting st rest
  | st, (_, value) :: requests =>
    if (dispatch st value).2 then dispatchAll dispatch rest (dispatch st value).1 requests
    else .ended (dispatch st value).1 ((requests.map Prod.fst).flatten ++ rest)

theorem request_ne_nil {value : List Arg} (h : Request py depth w value) : w ≠ [] := by
  cases h <;> exact List.cons_ne_nil _ _

/-- The loop dispatches the requests of the stream, each as it stands there,
and waits with what comes after them. -/
theorem receive_requests {requests : List (Bytes × List Arg)}
    (h : ∀ r ∈ requests, Request py depth r.1 r.2) (hrest : readCommand py depth rest = .more)
    {fuel : Nat} (hfuel : ((requests.map Prod.fst).flatten ++ rest).length ≤ fuel) (st : σ) :
    receiveCommands py depth dispatch fuel st ((requests.map Prod.fst).flatten ++ rest) =
      dispatchAll dispatch rest st requests := by
  induction requests generalizing fuel st with
  | nil =>
    cases fuel with
    | zero => rfl
    | succ fuel =>
      simp only [List.map_nil, List.flatten_nil, List.nil_append, receiveCommands, hrest, dispatchAll]
  | cons r requests ih =>
    obtain ⟨w, value⟩ := r
    obtain ⟨hr, hrequests⟩ := List.forall_mem_cons.mp h
    have hlength := List.length_pos_of_ne_nil (request_ne_nil hr)
    rw [List.map_cons, List.flatten_cons, List.append_assoc] at hfuel ⊢
    rw [List.length_append] at hfuel
    obtain ⟨fuel, rfl⟩ : ∃ n, fuel = n + 1 := Nat.exists_eq_succ_of_ne_zero (by omega)
    rw [receiveCommands, (recognises_request depth).takes hr]
    simp only [dispatchAll]
    by_cases hgoes : (dispatch st value).2
    · rw [if_pos hgoes, if_pos hgoes]
      exact ih hrequests (by omega) _
    · rw [if_neg hgoes, if_neg hgoes]

end Livelock.ServerReader
