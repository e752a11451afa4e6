import Livelock.Ascii
import Livelock.Connection

namespace Livelock.BufferedReader

open Livelock.Lib Livelock.Shared Livelock.Connection
open Livelock.Ascii (ascii)
open Livelock.Client (Exc)
open Livelock.ClientReader (Response setItem markers)
open Livelock.Lib.Chunks (toReader drive received)

/-- A reader of the client, as the calls that it makes of its buffer. -/
abbrev Reading (α : Type) := Prog BufferCall BufferCall.Result Exc α

def read (length : Nat) : Reading Bytes := Prog.perform (.read length)

def readline : Reading Bytes := Prog.perform .readline

def ofOption {α : Type} : Option α → Reading α
  | none => .raise .other
  | some a => .ret a

def next : Reading UInt8 := do
  let c ← read 1
  ofOption c.head?

variable (py : Builtins)

def readInt : Reading Int := do
  let line ← readline
  let text ← ofOption (decode line)
  ofOption (py.intOf (py.strip text))

def readBool : Reading Bool := do
  let line ← readline
  let text ← ofOption (decode line)
  if text = "t" then .ret true
  else if text = "f" then .ret false
  else .raise .other

def readFloat : Reading FloatValue := do
  let line ← readline
  let text ← ofOption (decode line)
  ofOption (py.floatOf (py.strip text))

def readBytes : Reading (Option Bytes) := do
  let len ← readInt py
  if len < 0 then .ret none
  else do
    let line ← read (max 2 (len + 2)).toNat
    if line.getLast? ≠ some 10 then .raise .other
    else if line.dropLast.getLast? ≠ some 13 then .raise .other
    else if len = 0 then .ret (some [])
    else .ret (some line.dropLast.dropLast)

def readBlobStr : Reading (Option String) := do
  match ← readBytes py with
  | none => .ret none
  | some data => do
    let text ← ofOption (decode data)
    .ret (some text)

mutual

/-- The rest of a value after its marker, with fuel for every value in it. -/
def receiveResp : Nat → UInt8 → Reading Value
  | 0, _ => .raise .other
  | fuel + 1, c =>
    if c = ':'.toUInt8 then do return .int (← readInt py)
    else if c = '^'.toUInt8 then do return (← readBytes py).elim .none .bytes
    else if c = '*'.toUInt8 then do return .list (← readArray fuel (← readInt py))
    else if c = '$'.toUInt8 then do return (← readBlobStr py).elim .none .str
    else if c = '%'.toUInt8 then do return .dict (← readDict fuel (← readInt py) [])
    else if c = '#'.toUInt8 then do return .bool (← readBool)
    else if c = ','.toUInt8 then do return .float (← readFloat py)
    else .raise .other

def readArray : Nat → Int → Reading (List Value)
  | 0, len => if len = 0 then .ret [] else .raise .other
  | fuel + 1, len =>
    if len = 0 then .ret []
    else do
      let value ← receiveResp fuel (← next)
      let values ← readArray fuel (len - 1)
      return value :: values

def readDict : Nat → Int → List (Value × Value) → Reading (List (Value × Value))
  | 0, len, r => if len = 0 then .ret r else .raise .other
  | fuel + 1, len, r =>
    if len = 0 then .ret r
    else do
      let key ← receiveResp fuel (← next)
      let value ← receiveResp fuel (← next)
      let r ← ofOption (setItem r key value)
      readDict fuel (len - 1) r

end

def readError : Reading Response := do
  let line ← readline
  let data ← ofOption (decode line)
  let code := String.ofList (data.toList.takeWhile (· ≠ ' '))
  let msg := py.strip (data.replace code "")
  if code = "" then .ret (.error msg none)
  else do
    let number ← ofOption (py.intOf code)
    .ret (.error msg (some number))

def readResponse (fuel : Nat) : Reading Response := do
  let c ← next
  if c ∈ markers then do return .value (← receiveResp py fuel c)
  else if c = '+'.toUInt8 then do
    let line ← readline
    let text ← ofOption (decode line)
    .ret (.text text)
  else if c = '-'.toUInt8 then readError py
  else .raise .other

def times {α : Type} (p : Reading α) : Nat → Reading (List α)
  | 0 => .ret []
  | n + 1 => do
    let a ← p
    let as ← times p n
    return a :: as

def view {α : Type} (p : Reading α) : Reader UInt8 α := toReader scan fault p

variable {py} {α β : Type}

@[simp] theorem view_bind (p : Reading α) (f : α → Reading β) :
    view (p >>= f) = view p >>= fun a => view (f a) := Chunks.toReader_bind p f

@[simp] theorem view_ret (a : α) : view (.ret a) = pure a := rfl

@[simp] theorem view_pure (a : α) : view (pure a) = pure a := rfl

@[simp] theorem view_raise (x : Exc) : view (.raise x : Reading α) = failure := rfl

@[simp] theorem view_ite {c : Prop} [Decidable c] (p q : Reading α) :
    view (if c then p else q) = if c then view p else view q := apply_ite view c p q

@[simp] theorem view_ofOption (x : Option α) : view (ofOption x) = Reader.ofOption x := by
  cases x <;> rfl

@[simp] theorem view_readline : view readline = ClientReader.readline := by
  funext s
  rw [view, readline, Chunks.toReader_perform]
  simp only [scan]
  cases ClientReader.readline s <;> rfl

@[simp] theorem view_read (n : Nat) : view (read n) = Reader.take n := by
  funext s
  rw [view, read, Chunks.toReader_perform]
  simp only [scan, Scan.take, Reader.take]
  by_cases h : n ≤ s.length
  · rw [if_pos h, if_pos h]
  · rw [if_neg h, if_neg h]

@[simp] theorem view_next : view next = Reader.next := by
  funext s
  rw [next, view_bind, view_read]
  cases s with
  | nil => rfl
  | cons c s =>
    have hread : Reader.take 1 (c :: s) = some ([c], s) := rfl
    rw [Reader.bind_some hread]
    rfl

@[simp] theorem view_readInt : view (readInt py) = ClientReader.readInt py := by
  simp [readInt, ClientReader.readInt]

@[simp] theorem view_readFloat : view (readFloat py) = ClientReader.readFloat py := by
  simp [readFloat, ClientReader.readFloat]

@[simp] theorem view_readBool : view readBool = ClientReader.readBool := by
  simp [readBool, ClientReader.readBool]

@[simp] theorem view_readBytes : view (readBytes py) = ClientReader.readBytes py := by
  simp [readBytes, ClientReader.readBytes]

@[simp] theorem view_readBlobStr : view (readBlobStr py) = ClientReader.readBlobStr py := by
  simp only [readBlobStr, ClientReader.readBlobStr, view_bind, view_readBytes]
  congr 1
  funext data
  cases data <;> simp

theorem view_resp (fuel : Nat) : (∀ c, view (receiveResp py fuel c) = ClientReader.receiveResp py fuel c) ∧
    (∀ len, view (readArray py fuel len) = ClientReader.readArray py fuel len) ∧
    ∀ len r, view (readDict py fuel len r) = ClientReader.readDict py fuel len r := by
  induction fuel with
  | zero => simp [receiveResp, readArray, readDict, ClientReader.receiveResp, ClientReader.readArray,
      ClientReader.readDict]
  | succ fuel ih =>
    obtain ⟨hresp, harray, hdict⟩ := ih
    refine ⟨fun c => ?_, fun len => ?_, fun len r => ?_⟩
    · simp [receiveResp, ClientReader.receiveResp, harray, hdict]
    · simp [readArray, ClientReader.readArray, hresp, harray]
    · simp [readDict, ClientReader.readDict, hresp, hdict]

theorem shorter_readline {s line rest : Bytes} (h : ClientReader.readline s = some (line, rest)) :
    rest.length < s.length := by
  have hsplit := congrArg List.length (s.takeWhile_append_dropWhile (p := (· ≠ 10)))
  rw [List.length_append] at hsplit
  simp only [ClientReader.readline] at h
  split at h
  · cases h
  · next b r hdrop =>
    rw [hdrop, List.length_cons] at hsplit
    split at h
    · cases h
      omega
    · cases h

theorem shrinks_readline : Reader.Shrinks ClientReader.readline := fun _ _ _ h =>
  (shorter_readline h).le

theorem shorter_int {s rest : Bytes} {n : Int} (h : ClientReader.readInt py s = some (n, rest)) :
    rest.length < s.length := by
  obtain ⟨line, r, hline, hn⟩ := Reader.bind_taken h
  have hrest := (Reader.shrinks_ofOption _).bind (fun _ => Reader.shrinks_ofOption _) hn
  exact hrest.trans_lt (shorter_readline hline)

theorem shrinks_int : Reader.Shrinks (ClientReader.readInt py) := fun _ _ _ h => (shorter_int h).le

theorem shrinks_float : Reader.Shrinks (ClientReader.readFloat py) :=
  shrinks_readline.bind fun _ => (Reader.shrinks_ofOption _).bind fun _ => Reader.shrinks_ofOption _

theorem shrinks_bool : Reader.Shrinks ClientReader.readBool := by
  refine shrinks_readline.bind fun _ => (Reader.shrinks_ofOption _).bind fun _ => ?_
  exact (Reader.shrinks_pure _).ite ((Reader.shrinks_pure _).ite Reader.shrinks_failure)

theorem shrinks_bytes : Reader.Shrinks (ClientReader.readBytes py) := by
  refine shrinks_int.bind fun len => (Reader.shrinks_pure _).ite ?_
  refine (Reader.shrinks_take _).bind fun line => ?_
  refine Reader.shrinks_failure.ite (Reader.shrinks_failure.ite ?_)
  exact (Reader.shrinks_pure _).ite (Reader.shrinks_pure _)

theorem shrinks_blobStr : Reader.Shrinks (ClientReader.readBlobStr py) := by
  refine shrinks_bytes.bind fun x => ?_
  cases x with
  | none => exact Reader.shrinks_pure _
  | some data => exact (Reader.shrinks_ofOption _).bind fun _ => Reader.shrinks_pure _

theorem shrinks_resp (fuel : Nat) : (∀ c, Reader.Shrinks (ClientReader.receiveResp py fuel c)) ∧
    (∀ len, Reader.Shrinks (ClientReader.readArray py fuel len)) ∧
    ∀ len r, Reader.Shrinks (ClientReader.readDict py fuel len r) := by
  have hpure : ∀ {α β : Type} (f : α → β) (a : α), Reader.Shrinks (pure (f a) : Reader UInt8 β) :=
    fun f a => Reader.shrinks_pure (f a)
  induction fuel with
  | zero =>
    refine ⟨fun c => Reader.shrinks_failure, fun len => ?_, fun len r => ?_⟩
    · exact (Reader.shrinks_pure _).ite Reader.shrinks_failure
    · exact (Reader.shrinks_pure _).ite Reader.shrinks_failure
  | succ fuel ih =>
    obtain ⟨hresp, harray, hdict⟩ := ih
    refine ⟨fun c => ?_, fun len => ?_, fun len r => ?_⟩
    · refine (shrinks_int.bind (hpure _)).ite ((shrinks_bytes.bind (hpure _)).ite ?_)
      refine (shrinks_int.bind fun len => (harray len).bind (hpure _)).ite ?_
      refine (shrinks_blobStr.bind (hpure _)).ite ?_
      refine (shrinks_int.bind fun len => (hdict len []).bind (hpure _)).ite ?_
      refine (shrinks_bool.bind (hpure _)).ite ((shrinks_float.bind (hpure _)).ite ?_)
      exact Reader.shrinks_failure
    · refine (Reader.shrinks_pure _).ite (Reader.shrinks_next.bind fun c => (hresp c).bind fun v => ?_)
      exact (harray _).bind (hpure _)
    · refine (Reader.shrinks_pure _).ite (Reader.shrinks_next.bind fun c => (hresp c).bind fun k => ?_)
      refine Reader.shrinks_next.bind fun c => (hresp c).bind fun v => ?_
      exact (Reader.shrinks_ofOption _).bind fun r => hdict _ r

theorem shorter_next {s rest : Bytes} {c : UInt8} (h : Reader.next s = some (c, rest)) :
    rest.length < s.length := by
  cases s with
  | nil => cases h
  | cons x s =>
    cases h
    exact Nat.lt_succ_self _

/-- Fuel for every byte is enough: more of it changes nothing. -/
theorem resp_fuel {fuel fuel' : Nat} {s : Bytes} (h : s.length < fuel) (h' : s.length < fuel') :
    (∀ c, ClientReader.receiveResp py fuel c s = ClientReader.receiveResp py fuel' c s) ∧
      (∀ len, ClientReader.readArray py fuel len s = ClientReader.readArray py fuel' len s) ∧
      ∀ len r, ClientReader.readDict py fuel len r s = ClientReader.readDict py fuel' len r s := by
  induction fuel generalizing fuel' s with
  | zero => exact absurd h (Nat.not_lt_zero _)
  | succ fuel ih =>
    obtain ⟨fuel', rfl⟩ : ∃ n, fuel' = n + 1 := Nat.exists_eq_succ_of_ne_zero (by omega)
    have hless : ∀ {r : Bytes}, r.length < s.length → r.length < fuel ∧ r.length < fuel' := by
      intro r hr
      omega
    refine ⟨fun c => ?_, fun len => ?_, fun len r => ?_⟩
    · simp only [ClientReader.receiveResp]
      split
      · rfl
      split
      · rfl
      split
      · refine Reader.bind_congr fun len r hlen => Reader.bind_congr_left ?_
        obtain ⟨hr, hr'⟩ := hless (shorter_int hlen)
        exact (ih hr hr').2.1 len
      split
      · rfl
      split
      · refine Reader.bind_congr fun len r hlen => Reader.bind_congr_left ?_
        obtain ⟨hr, hr'⟩ := hless (shorter_int hlen)
        exact (ih hr hr').2.2 len []
      rfl
    · simp only [ClientReader.readArray]
      split
      · rfl
      refine Reader.bind_congr fun c r hc => ?_
      obtain ⟨hr, hr'⟩ := hless (shorter_next hc)
      rw [Reader.bind_congr_left ((ih hr hr').1 c)]
      refine Reader.bind_congr fun v r₁ hv => Reader.bind_congr_left ?_
      have hr₁ := (shrinks_resp fuel').1 c hv
      exact (ih (hr₁.trans_lt hr) (hr₁.trans_lt hr')).2.1 _
    · simp only [ClientReader.readDict]
      split
      · rfl
      refine Reader.bind_congr fun c r₀ hc => ?_
      obtain ⟨hr, hr'⟩ := hless (shorter_next hc)
      rw [Reader.bind_congr_left ((ih hr hr').1 c)]
      refine Reader.bind_congr fun k r₁ hk => Reader.bind_congr fun c' r₂ hc' => ?_
      have hr₁ := (shrinks_resp fuel').1 c hk
      have hr₂ := (shorter_next hc').le.trans hr₁
      rw [Reader.bind_congr_left ((ih (hr₂.trans_lt hr) (hr₂.trans_lt hr')).1 c')]
      refine Reader.bind_congr fun v r₃ hv => Reader.bind_congr fun r' r₄ hset => ?_
      have hr₃ := ((shrinks_resp fuel').1 c' hv).trans hr₂
      have hr₄ := (Reader.shrinks_ofOption _ hset).trans hr₃
      exact (ih (hr₄.trans_lt hr) (hr₄.trans_lt hr')).2.2 _ _

theorem view_readError : view (readError py) = ClientReader.readError py := by
  simp [readError, ClientReader.readError]

theorem view_readResponse {fuel : Nat} {s : Bytes} (h : s.length < fuel) :
    view (readResponse py fuel) s = ClientReader.readResponse py s := by
  have hcall : view (readResponse py fuel) = Reader.next >>= fun c =>
      if c ∈ markers then ClientReader.receiveResp py fuel c >>= fun v => pure (Response.value v)
      else if c = '+'.toUInt8 then ClientReader.readline >>= fun line =>
        Reader.ofOption (decode line) >>= fun text => pure (Response.text text)
      else if c = '-'.toUInt8 then ClientReader.readError py
      else failure := by
    simp [readResponse, view_readError, (view_resp fuel).1]
  rw [hcall]
  refine Reader.bind_congr fun c r hc => ?_
  have hr := shorter_next hc
  split
  · rw [Reader.bind_get]
    exact Reader.bind_congr_left ((resp_fuel (by omega) (by omega)).1 c)
  · rfl

theorem shrinks_error : Reader.Shrinks (ClientReader.readError py) := by
  refine shrinks_readline.bind fun line => (Reader.shrinks_ofOption _).bind fun data => ?_
  refine (Reader.shrinks_pure _).ite ((Reader.shrinks_ofOption _).bind fun _ => Reader.shrinks_pure _)

theorem shrinks_response : Reader.Shrinks (ClientReader.readResponse py) := by
  refine Reader.shrinks_next.bind fun c => Reader.Shrinks.ite ?_ (Reader.Shrinks.ite ?_ ?_)
  · intro s rest a h
    rw [Reader.bind_get] at h
    exact ((shrinks_resp _).1 c).bind (fun _ => Reader.shrinks_pure _) h
  · exact shrinks_readline.bind fun _ => (Reader.shrinks_ofOption _).bind fun _ => Reader.shrinks_pure _
  · exact shrinks_error.ite Reader.shrinks_failure

theorem view_times {fuel : Nat} (n : Nat) {s : Bytes} (h : s.length < fuel) :
    view (times (readResponse py fuel) n) s = Reader.times (ClientReader.readResponse py) n s := by
  induction n generalizing s with
  | zero => rfl
  | succ n ih =>
    rw [times, view_bind, Reader.times, Reader.bind_congr_left (view_readResponse h)]
    refine Reader.bind_congr fun v r hv => ?_
    rw [view_bind, Reader.bind_congr_left (ih ((shrinks_response hv).trans_lt h))]
    rfl

theorem times_got {thread : String} {b : SocketBuffer} (hb : b.Ok thread) (socket : List Recv)
    {fuel : Nat} (hfuel : (b.unread ++ received feed socket).length < fuel) {n : Nat}
    {responses : List Response} {rest : Bytes}
    (h : Reader.times (ClientReader.readResponse py) n (b.unread ++ received feed socket) = some (responses, rest)) :
    ∃ b' socket', drive (op thread) (times (readResponse py fuel) n) b socket = .got responses b' socket' ∧
      b'.Ok thread ∧ b'.unread ++ received feed socket' = rest := by
  rw [← view_times n hfuel, view, Chunks.toReader_some] at h
  exact (Chunks.drive_got stable_scan op_same _ b socket hb responses rest).mp h

theorem got_times {thread : String} {b b' : SocketBuffer} (hb : b.Ok thread) {socket socket' : List Recv}
    {fuel : Nat} (hfuel : (b.unread ++ received feed socket).length < fuel) {n : Nat}
    {responses : List Response}
    (h : drive (op thread) (times (readResponse py fuel) n) b socket = .got responses b' socket')
    (hb' : b'.Ok thread) :
    Reader.times (ClientReader.readResponse py) n (b.unread ++ received feed socket) =
      some (responses, b'.unread ++ received feed socket') := by
  rw [← view_times n hfuel, view, Chunks.toReader_some]
  exact (Chunks.drive_got stable_scan op_same _ b socket hb responses _).mpr ⟨b', socket', h, hb', rfl⟩

/-- The responses that a client reads through its buffer are those of the stream
of all bytes that come, however the socket cuts it into pieces, and what is
left of that stream is in the buffer or still to come. -/
theorem buffered_responses {thread : String} {b : SocketBuffer} (hb : b.Ok thread) (socket : List Recv)
    {fuel : Nat} (hfuel : (b.unread ++ received feed socket).length < fuel) (n : Nat)
    (responses : List Response) (rest : Bytes) :
    Reader.times (ClientReader.readResponse py) n (b.unread ++ received feed socket) =
        some (responses, rest) ↔
      ∃ b' socket', drive (op thread) (times (readResponse py fuel) n) b socket =
          .got responses b' socket' ∧ b'.Ok thread ∧ b'.unread ++ received feed socket' = rest := by
  refine ⟨times_got hb socket hfuel, ?_⟩
  rintro ⟨b', socket', hdrive, hb', rfl⟩
  exact got_times hb hfuel hdrive hb'

/-- A reply that is cut in the middle of its line, and the beginning of the next. -/
theorem buffered_responses_cut : ∃ b' socket',
    drive (op "main") (times (readResponse ascii 9) 1) (SocketBuffer.new (some "main"))
        [.data (encode "+1\r"), .data (encode "\n+"), .timeout] = .got [.text "1"] b' socket' ∧
      b'.Ok "main" ∧ b'.unread ++ received feed socket' = encode "+" :=
  (buffered_responses ⟨rfl, le_rfl, rfl⟩ [.data (encode "+1\r"), .data (encode "\n+"), .timeout]
    (by decide) 1 [.text "1"] (encode "+")).mp rfl

end Livelock.BufferedReader
