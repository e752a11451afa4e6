import Livelock.Client
import Livelock.Lib.Chunks

namespace Livelock.Connection

open Livelock.Lib Livelock.Shared
open Livelock.Client (Exc truthy)
open Livelock.Lib.Chunks (Pulled Same Stable pullCall received)

/-- The parts of `BytesIO` that the buffer uses. -/
structure Buffer where
  content : Bytes
  pos : Nat

namespace Buffer

def seek (io : Buffer) (pos : Nat) : Buffer := { io with pos := pos }

def write (io : Buffer) (data : Bytes) : Buffer where
  content := (io.content ++ List.replicate (io.pos - io.content.length) 0).take io.pos ++ data ++
    io.content.drop (io.pos + data.length)
  pos := io.pos + data.length

def read (io : Buffer) (length : Nat) : Bytes × Buffer :=
  let data := (io.content.drop io.pos).take length
  (data, { io with pos := io.pos + data.length })

def lineOf (s : Bytes) : Bytes := s.takeWhile (· ≠ 10) ++ (s.dropWhile (· ≠ 10)).take 1

def readline (io : Buffer) : Bytes × Buffer :=
  let data := lineOf (io.content.drop io.pos)
  (data, { io with pos := io.pos + data.length })

def truncate (io : Buffer) : Buffer := { io with content := io.content.take io.pos }

end Buffer

/-- A result of `sock.recv`. The socket is closed where there is no data. -/
inductive Recv
  | data (chunk : Bytes)
  | timeout
  | error

structure SocketBuffer where
  buffer : Buffer
  bytesWritten : Nat
  bytesRead : Nat
  tid : Option String

namespace SocketBuffer

def new (tid : Option String) : SocketBuffer := ⟨⟨[], 0⟩, 0, 0, tid⟩

def length (b : SocketBuffer) : Nat := b.bytesWritten - b.bytesRead

def purge (b : SocketBuffer) : SocketBuffer :=
  { b with buffer := (b.buffer.seek 0).truncate, bytesWritten := 0, bytesRead := 0 }

def receive (b : SocketBuffer) : Recv → Except Exc SocketBuffer
  | .data chunk =>
    if chunk = [] then .error .os
    else .ok { b with buffer := b.buffer.write chunk, bytesWritten := b.bytesWritten + chunk.length }
  | .timeout | .error => .error .os

/-- The loop of `_read_from_socket` for a `length` of which `marker` has come. -/
def readFromSocket (length marker : Nat) (b : SocketBuffer) : List Recv → Pulled SocketBuffer Recv Exc Unit
  | [] => .stuck b
  | r :: socket =>
    match b.receive r with
    | .error x => .raised x b socket
    | .ok b' =>
      let marker := marker + (b'.bytesWritten - b.bytesWritten)
      if marker < length then readFromSocket length marker b' socket else .got () b' socket

/-- The end of `read` and of `readline`: a buffer that was read whole is purged. -/
def consume (b : SocketBuffer) (data : Bytes) : SocketBuffer :=
  let b := { b with bytesRead := b.bytesRead + data.length }
  if b.bytesRead = b.bytesWritten then b.purge else b

def foreign (b : SocketBuffer) (thread : String) : Bool := (truthy b.tid).any (· ≠ thread)

def readBuffer (b : SocketBuffer) (length : Nat) (socket : List Recv) :
    Pulled SocketBuffer Recv Exc Bytes :=
  let (data, buffer) := (b.buffer.seek b.bytesRead).read length
  .got data ({ b with buffer := buffer }.consume data) socket

variable (thread : String)

def read (b : SocketBuffer) (length : Nat) (socket : List Recv) : Pulled SocketBuffer Recv Exc Bytes :=
  if b.foreign thread then .raised .other b socket
  else if b.length < length then
    match readFromSocket (length - b.length) 0 { b with buffer := b.buffer.seek b.bytesWritten } socket with
    | .got _ b socket => b.readBuffer length socket
    | .raised x b socket => .raised x b socket
    | .stuck b => .stuck b
  else b.readBuffer length socket

def readlineLoop (b : SocketBuffer) (socket : List Recv) : Pulled SocketBuffer Recv Exc Bytes :=
  let (data, buffer) := (b.buffer.seek b.bytesRead).readline
  let b := { b with buffer := buffer }
  if crlf.isSuffixOf data then .got data.dropLast.dropLast (b.consume data) socket
  else
    let b := { b with buffer := b.buffer.seek b.bytesWritten }
    match socket with
    | [] => .stuck b
    | r :: socket =>
      match b.receive r with
      | .error x => .raised x b socket
      | .ok b => readlineLoop b socket

def readline (b : SocketBuffer) (socket : List Recv) : Pulled SocketBuffer Recv Exc Bytes :=
  if b.foreign thread then .raised .other b socket else readlineLoop b socket

/-- What has come from the socket and was not read yet. -/
def unread (b : SocketBuffer) : Bytes := b.buffer.content.drop b.bytesRead

/-- The counters agree with the buffer, and it is used by its own thread. -/
structure Ok (b : SocketBuffer) : Prop where
  written : b.bytesWritten = b.buffer.content.length
  read : b.bytesRead ≤ b.bytesWritten
  own : b.foreign thread = false

end SocketBuffer

/-- What the readers of the client ask of their buffer. -/
inductive BufferCall
  | read (length : Nat)
  | readline

abbrev BufferCall.Result : BufferCall → Type := fun _ => Bytes

def scan : (e : BufferCall) → Scan UInt8 e.Result
  | .read length => Scan.take length
  | .readline => fun s =>
    match ClientReader.readline s with
    | some (line, rest) => .done line rest
    | none => .more

def fault (_ : BufferCall) : Exc := .other

def feed : Recv → Except Exc Bytes
  | .data chunk => if chunk = [] then .error .os else .ok chunk
  | .timeout | .error => .error .os

def op (thread : String) : (e : BufferCall) → SocketBuffer → List Recv →
    Pulled SocketBuffer Recv Exc e.Result
  | .read length, b, socket => b.read thread length socket
  | .readline, b, socket => b.readline thread socket

theorem stable_scan (e : BufferCall) : Stable (scan e) := by
  cases e with
  | read length => exact Chunks.stable_of_recognises (Scan.Recognises.take length)
  | readline =>
    refine ⟨fun {s a rest} h t => ?_, fun {s} h => ?_⟩
    · simp only [scan] at h ⊢
      split at h
      · next line r hs =>
        cases h
        rw [ClientReader.extends_readline hs t]
      · cases h
    · simp only [scan] at h
      split at h <;> cases h

open SocketBuffer

variable {thread : String} {b : SocketBuffer}

theorem length_unread (h : b.Ok thread) : b.unread.length = b.length := by
  rw [SocketBuffer.unread, List.length_drop, SocketBuffer.length, h.written]

theorem receive_ok {chunk : Bytes} (h : b.Ok thread) (hpos : b.buffer.pos = b.bytesWritten)
    (hchunk : chunk ≠ []) : ∃ b', b.receive (.data chunk) = .ok b' ∧ b'.Ok thread ∧
      b'.unread = b.unread ++ chunk ∧ b'.buffer.pos = b'.bytesWritten ∧
      b'.bytesWritten = b.bytesWritten + chunk.length := by
  have hcontent : (b.buffer.write chunk).content = b.buffer.content ++ chunk := by
    have hend : b.buffer.pos = b.buffer.content.length := hpos.trans h.written
    simp [Buffer.write, hend]
  have hread : b.bytesRead ≤ b.buffer.content.length := h.written ▸ h.read
  refine ⟨_, if_neg hchunk, ⟨?_, ?_, h.own⟩, ?_, ?_, rfl⟩
  · simp only [hcontent, List.length_append, h.written]
  · exact h.read.trans (Nat.le_add_right _ _)
  · simp only [SocketBuffer.unread, hcontent, List.drop_append_of_le_length hread]
  · simp only [Buffer.write, hpos]

theorem receive_feed (r : Recv) : (∃ x, feed r = .error x ∧ ∀ b : SocketBuffer, b.receive r = .error x) ∨
    ∃ chunk, r = .data chunk ∧ chunk ≠ [] ∧ feed r = .ok chunk := by
  cases r with
  | data chunk =>
    by_cases hchunk : chunk = []
    · exact .inl ⟨.os, if_pos hchunk, fun b => if_pos hchunk⟩
    · exact .inr ⟨chunk, rfl, hchunk, if_neg hchunk⟩
  | timeout | error => exact .inl ⟨.os, rfl, fun b => rfl⟩

theorem consume_ok {data rest : Bytes} (h : b.Ok thread) (hdata : b.unread = data ++ rest) :
    (b.consume data).Ok thread ∧ (b.consume data).unread = rest := by
  have hlength : data.length + rest.length = b.bytesWritten - b.bytesRead := by
    rw [← List.length_append, ← hdata, length_unread h, SocketBuffer.length]
  have hread := h.read
  unfold consume
  dsimp only
  split
  · next hall =>
    have hrest : rest = [] := List.length_eq_zero_iff.mp (by omega)
    refine ⟨⟨?_, le_rfl, h.own⟩, ?_⟩
    · simp [purge, Buffer.truncate, Buffer.seek]
    · rw [hrest]
      simp [SocketBuffer.unread, purge, Buffer.truncate, Buffer.seek]
  · refine ⟨⟨h.written, by dsimp only; omega, h.own⟩, ?_⟩
    rw [SocketBuffer.unread, ← List.drop_drop]
    show b.unread.drop data.length = rest
    rw [hdata, List.drop_left]

theorem readFromSocket_same {n length marker : Nat} (socket : List Recv) (h : b.Ok thread)
    (hpos : b.buffer.pos = b.bytesWritten) (hn : b.unread.length + length = n + marker)
    (hshort : marker < length) :
    match readFromSocket length marker b socket with
    | .got _ b' socket' => b'.Ok thread ∧ n ≤ b'.unread.length ∧
        pullCall feed scan fault (.read n) b.unread socket =
          .got (b'.unread.take n) (b'.unread.drop n) socket'
    | .raised x b' socket' => b'.Ok thread ∧
        pullCall feed scan fault (.read n) b.unread socket = .raised x b'.unread socket'
    | .stuck b' => b'.Ok thread ∧
        pullCall feed scan fault (.read n) b.unread socket = .stuck b'.unread := by
  induction socket generalizing b marker with
  | nil =>
    have hmore : scan (.read n) b.unread = .more := if_neg (by omega)
    simp only [readFromSocket]
    refine ⟨h, ?_⟩
    rw [pullCall, hmore]
  | cons r socket ih =>
    have hmore : scan (.read n) b.unread = .more := if_neg (by omega)
    rw [pullCall, hmore]
    obtain ⟨x, hfeed, hrecv⟩ | ⟨chunk, rfl, hchunk, hfeed⟩ := receive_feed r
    · simp only [readFromSocket, hrecv b, hfeed]
      exact ⟨h, trivial⟩
    · obtain ⟨b', hrecv, hok, hunread, hpos', hwritten⟩ := receive_ok h hpos hchunk
      have hlength := congrArg List.length hunread
      rw [List.length_append] at hlength
      simp only [readFromSocket, hrecv, hfeed]
      have hmarker : marker + (b'.bytesWritten - b.bytesWritten) = marker + chunk.length := by omega
      rw [hmarker, ← hunread]
      by_cases hless : marker + chunk.length < length
      · rw [if_pos hless]
        exact ih hok hpos' (by omega) hless
      · rw [if_neg hless]
        have henough : n ≤ b'.unread.length := by omega
        have hdone : scan (.read n) b'.unread = .done (b'.unread.take n) (b'.unread.drop n) :=
          if_pos henough
        refine ⟨hok, henough, ?_⟩
        rw [Chunks.pullCall_done hdone]

theorem readBuffer_same {n : Nat} (h : b.Ok thread) (socket : List Recv) :
    Same SocketBuffer.unread (SocketBuffer.Ok thread) (b.readBuffer n socket)
      (.got (b.unread.take n) (b.unread.drop n) socket) := by
  have hsplit : b.unread = b.unread.take n ++ b.unread.drop n := (List.take_append_drop n _).symm
  have hok : { b with buffer := ((b.buffer.seek b.bytesRead).read n).2 }.Ok thread :=
    ⟨h.written, h.read, h.own⟩
  obtain ⟨hok', hunread⟩ := consume_ok hok hsplit
  exact ⟨rfl, hok', hunread, rfl⟩

theorem read_same (h : b.Ok thread) (n : Nat) (socket : List Recv) :
    Same SocketBuffer.unread (SocketBuffer.Ok thread) (b.read thread n socket)
      (pullCall feed scan fault (.read n) b.unread socket) := by
  have hlength := length_unread h
  rw [SocketBuffer.read, h.own, if_neg Bool.false_ne_true]
  split
  · next hshort =>
    let sought : SocketBuffer := { b with buffer := b.buffer.seek b.bytesWritten }
    have hok : sought.Ok thread := ⟨h.written, h.read, h.own⟩
    have hn : sought.unread.length + (n - b.length) = n + 0 := by
      show b.unread.length + _ = _
      omega
    have hsame := readFromSocket_same socket hok rfl hn (by omega)
    have hunread : sought.unread = b.unread := rfl
    rw [hunread] at hsame
    cases hread : readFromSocket (n - b.length) 0 sought socket with
    | got u b' socket' =>
      simp only [hread] at hsame
      obtain ⟨hok, -, hpull⟩ := hsame
      rw [hpull]
      exact readBuffer_same hok socket'
    | raised x b' socket' =>
      simp only [hread] at hsame
      rw [hsame.2]
      exact ⟨rfl, hsame.1, rfl, rfl⟩
    | stuck b' =>
      simp only [hread] at hsame
      rw [hsame.2]
      exact ⟨hsame.1, rfl⟩
  · next hshort =>
    have hdone : scan (.read n) b.unread = .done (b.unread.take n) (b.unread.drop n) :=
      if_pos (by omega)
    rw [Chunks.pullCall_done hdone]
    exact readBuffer_same h socket

theorem line_cases (s : Bytes) : 10 ∉ s ∨ ∃ t rest, s = t ++ 10 :: rest ∧ 10 ∉ t := by
  induction s with
  | nil => exact .inl (by simp)
  | cons b s ih =>
    by_cases hb : b = 10
    · exact .inr ⟨[], s, by rw [hb]; rfl, by simp⟩
    · obtain hno | ⟨t, rest, rfl, ht⟩ := ih
      · exact .inl (by simp [Ne.symm hb, hno])
      · exact .inr ⟨b :: t, rest, rfl, by simp [Ne.symm hb, ht]⟩

theorem break_all {s : Bytes} (hs : 10 ∉ s) :
    s.takeWhile (· ≠ 10) = s ∧ s.dropWhile (· ≠ 10) = [] := by
  have hall : ∀ b ∈ s, decide (b ≠ 10) = true := fun b hb => decide_eq_true fun he => hs (he ▸ hb)
  exact ⟨List.takeWhile_eq_self_iff.mpr hall, List.dropWhile_eq_nil_iff.mpr hall⟩

theorem break_line {t : Bytes} (ht : 10 ∉ t) (rest : Bytes) :
    (t ++ 10 :: rest).takeWhile (· ≠ 10) = t ∧ (t ++ 10 :: rest).dropWhile (· ≠ 10) = 10 :: rest := by
  have hall : ∀ b ∈ t, decide (b ≠ 10) = true := fun b hb => decide_eq_true fun he => ht (he ▸ hb)
  rw [List.takeWhile_append_of_pos hall, List.dropWhile_append_of_pos hall]
  exact ⟨List.append_nil t, rfl⟩

theorem scan_lineOf (s : Bytes) : scan .readline s =
    if crlf.isSuffixOf (Buffer.lineOf s) then
      .done (Buffer.lineOf s).dropLast.dropLast (s.drop (Buffer.lineOf s).length)
    else .more := by
  obtain hno | ⟨t, rest, rfl, ht⟩ := line_cases s
  · obtain ⟨htake, hdrop⟩ := break_all hno
    have hend : ¬ crlf.isSuffixOf s = true := by
      rw [List.isSuffixOf_iff_suffix]
      exact fun hsuffix => hno (hsuffix.subset (by simp [crlf]))
    simp only [scan, ClientReader.readline, Buffer.lineOf, htake, hdrop, List.take_nil, List.append_nil]
    rw [if_neg hend]
  · obtain ⟨htake, hdrop⟩ := break_line ht rest
    have hend : crlf.isSuffixOf (t ++ [10]) = true ↔ t.getLast? = some 13 := by
      rw [List.isSuffixOf_iff_suffix]
      constructor
      · rintro ⟨u, hu⟩
        have hsplit : (u ++ [13]) ++ [10] = t ++ [10] := by simpa [crlf] using hu
        rw [← List.append_cancel_right hsplit, List.getLast?_concat]
      · intro hlast
        obtain ⟨u, hu⟩ := List.getLast?_eq_some_iff.mp hlast
        exact ⟨u, by simp [hu, crlf]⟩
    simp only [scan, ClientReader.readline, Buffer.lineOf, htake, hdrop, List.take_succ_cons, List.take_zero]
    by_cases hlast : t.getLast? = some 13
    · rw [if_pos hlast, if_pos (hend.mpr hlast)]
      simp
    · rw [if_neg hlast, if_neg (mt hend.mp hlast)]

theorem lineOf_split (s : Bytes) : s = Buffer.lineOf s ++ s.drop (Buffer.lineOf s).length := by
  obtain hno | ⟨t, rest, rfl, ht⟩ := line_cases s
  · obtain ⟨htake, hdrop⟩ := break_all hno
    simp only [Buffer.lineOf, htake, hdrop]
    simp
  · obtain ⟨htake, hdrop⟩ := break_line ht rest
    simp only [Buffer.lineOf, htake, hdrop]
    simp

theorem readlineLoop_cases (h : b.Ok thread) (socket : List Recv) :
    (∃ b' rest line, scan .readline b.unread = .done line rest ∧ b'.Ok thread ∧ b'.unread = rest ∧
        b.readlineLoop socket = .got line b' socket) ∨
      ∃ b', scan .readline b.unread = .more ∧ b'.Ok thread ∧ b'.unread = b.unread ∧
        b'.buffer.pos = b'.bytesWritten ∧ b.readlineLoop socket =
          match socket with
          | [] => .stuck b'
          | r :: socket =>
            match b'.receive r with
            | .error x => .raised x b' socket
            | .ok b => b.readlineLoop socket := by
  rw [scan_lineOf, readlineLoop.eq_def]
  by_cases hend : crlf.isSuffixOf (Buffer.lineOf b.unread) = true
  · obtain ⟨hok, hunread⟩ := consume_ok (b := { b with buffer := ((b.buffer.seek b.bytesRead).readline).2 })
      ⟨h.written, h.read, h.own⟩ (lineOf_split b.unread)
    exact .inl ⟨_, _, _, if_pos hend, hok, hunread, if_pos hend⟩
  · refine .inr ⟨{ b with buffer := ((b.buffer.seek b.bytesRead).readline).2.seek b.bytesWritten },
      if_neg hend, ⟨h.written, h.read, h.own⟩, rfl, rfl, ?_⟩
    cases socket <;> exact if_neg hend

theorem readlineLoop_same (h : b.Ok thread) (socket : List Recv) :
    Same SocketBuffer.unread (SocketBuffer.Ok thread) (b.readlineLoop socket)
      (pullCall feed scan fault .readline b.unread socket) := by
  induction socket generalizing b with
  | nil =>
    obtain ⟨b', rest, line, hscan, hok, rfl, hloop⟩ | ⟨b', hscan, hok, hunread, -, hloop⟩ :=
      readlineLoop_cases h []
    · rw [hloop, pullCall, hscan]
      exact ⟨rfl, hok, rfl, rfl⟩
    · rw [hloop, pullCall, hscan]
      exact ⟨hok, hunread⟩
  | cons r socket ih =>
    obtain ⟨b', rest, line, hscan, hok, rfl, hloop⟩ | ⟨b', hscan, hok, hunread, hpos, hloop⟩ :=
      readlineLoop_cases h (r :: socket)
    · rw [hloop, pullCall, hscan]
      exact ⟨rfl, hok, rfl, rfl⟩
    · rw [hloop, pullCall, hscan]
      obtain ⟨x, hfeed, hrecv⟩ | ⟨chunk, rfl, hchunk, hfeed⟩ := receive_feed r
      · simp only [hfeed, hrecv b']
        exact ⟨rfl, hok, hunread, rfl⟩
      · obtain ⟨b'', hrecv, hok', hunread', -, -⟩ := receive_ok hok hpos hchunk
        simp only [hfeed, hrecv]
        rw [← hunread, ← hunread']
        exact ih hok'

/-- The buffer answers each call as a stream would that comes in chunks. -/
theorem op_same (e : BufferCall) (b : SocketBuffer) (socket : List Recv) (h : b.Ok thread) :
    Same SocketBuffer.unread (SocketBuffer.Ok thread) (op thread e b socket)
      (pullCall feed scan fault e b.unread socket) := by
  cases e with
  | read length => exact read_same h length socket
  | readline =>
    rw [op, SocketBuffer.readline, h.own, if_neg Bool.false_ne_true]
    exact readlineLoop_same h socket

end Livelock.Connection
