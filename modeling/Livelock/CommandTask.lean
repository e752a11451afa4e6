import Livelock.ServerReader
import Livelock.Lib.Coroutine

namespace Livelock.CommandTask

open Livelock.Lib Livelock.Shared Livelock.Server Livelock.ServerReader
open Livelock.Lib.Scan (Lang Recognises endless next ofOption take times)
open Livelock.Lib.Coroutine (Steady Denotes Reaches Pushed push)

/-- What the innermost reader of a connection is waiting for: a `readexactly`
or the `readuntil` of one of the readers. -/
inductive Await
  | marker
  | raw (c : UInt8)
  | int
  | float
  | size
  | data (len : Int)
  | count

/-- A suspended `_read_array`, with its counter and the values it has read. -/
structure ArrayRead where
  len : Int
  r : List Arg

/-- A suspended round of `receive_commands`: the arrays that it is in, the
innermost first, and the read that it waits in. -/
structure Task where
  frames : List ArrayRead
  await : Await

def Task.start : Task := ⟨[], .marker⟩

/-- A value was read. It ends every array that it is the last value of. -/
def finish : List ArrayRead → Arg → Task ⊕ List Arg
  | [], value => .inr (asRequest value)
  | frame :: frames, value =>
    let r := frame.r ++ [value]
    let len := frame.len - 1
    if len = 0 then finish frames (.array r) else .inl ⟨⟨len, r⟩ :: frames, .marker⟩

def dispatchMarker (depth : Nat) (c : UInt8) : Option Await :=
  if depth = 0 then none
  else if c = ':'.toUInt8 then some .int
  else if c = '$'.toUInt8 then some .size
  else if c = '*'.toUInt8 then some .count
  else if c = ','.toUInt8 then some .float
  else none

variable (py : Builtins) (depth : Nat)

def afterMarker (frames : List ArrayRead) (c : UInt8) : Option Task :=
  if frames = [] ∧ c ∉ markers then some ⟨frames, .raw c⟩
  else (dispatchMarker (depth - frames.length) c).map fun await => ⟨frames, await⟩

def afterCount (frames : List ArrayRead) (len : Int) : Task ⊕ List Arg :=
  if len = 0 then finish frames (.array []) else .inl ⟨⟨len, []⟩ :: frames, .marker⟩

/-- One read of a task, up to the next one that it waits in. -/
def Task.read (task : Task) : Scan UInt8 (Task ⊕ List Arg) :=
  match task.await with
  | .marker => do
    let c ← next
    ofOption ((afterMarker depth task.frames c).map Sum.inl)
  | .raw c => do
    let line ← readuntil
    ofOption ((decode (c :: line)).map fun text => .inr (rawRequest text))
  | .int => do return finish task.frames (.int (← readInt py))
  | .float => do return finish task.frames (.float (← readFloat py))
  | .size => do return .inl { task with await := .data (← readInt py) }
  | .data len => do
    let line ← take (max 2 (len + 2)).toNat
    ofOption ((checkBytes len line).map fun x => finish task.frames (x.elim .null .bytes))
  | .count => do return afterCount task.frames (← readInt py)

def Task.run (task : Task) (s : Bytes) : Pushed UInt8 Task (List Arg) :=
  push (Task.read py depth) (s.length + 1) task s

def item (n : Nat) : Scan UInt8 Arg := next >>= receiveResp py (depth - n)

def afterValue : List ArrayRead → Arg → Scan UInt8 (List Arg)
  | [], value => pure (asRequest value)
  | frame :: frames, value =>
    let value' := item py depth (frames.length + 1)
    if frame.len - 1 < 0 then endless value'
    else do
      let values ← times value' (frame.len - 1).toNat
      afterValue frames (.array (frame.r ++ value :: values))

/-- What a task reads from where it is, if it were done at once. -/
def Task.meaning (task : Task) : Scan UInt8 (List Arg) :=
  match task.await with
  | .marker =>
    if task.frames = [] then readCommand py depth
    else item py depth task.frames.length >>= afterValue py depth task.frames
  | .raw c => do
    let line ← readuntil
    ofOption ((decode (c :: line)).map rawRequest)
  | .int => readInt py >>= fun n => afterValue py depth task.frames (.int n)
  | .float => readFloat py >>= fun x => afterValue py depth task.frames (.float x)
  | .size => readBytes py >>= fun x => afterValue py depth task.frames (x.elim .null .bytes)
  | .data len => do
    let line ← take (max 2 (len + 2)).toNat
    let x ← ofOption (checkBytes len line)
    afterValue py depth task.frames (x.elim .null .bytes)
  | .count => do
    let items ← readArray py (item py depth (task.frames.length + 1))
    afterValue py depth task.frames (.array items)

variable {py depth}

theorem resp_ne_nil {w : Bytes} {value : Arg} (h : Resp py depth w value) : w ≠ [] := by
  cases depth with
  | zero => exact h.elim
  | succ depth =>
    obtain ⟨c, u, rfl, -⟩ := h
    exact List.cons_ne_nil c u

theorem item_takes {n : Nat} {s rest : Bytes} {value : Arg} (h : item py depth n s = .done value rest) :
    rest.length < s.length :=
  (recognises_resp (depth - n)).takes_some resp_ne_nil h

theorem frame_means {len : Int} (hlen : len ≠ 0) (r : List Arg) (frames : List ArrayRead) :
    Task.meaning py depth ⟨⟨len, r⟩ :: frames, .marker⟩ =
      if len < 0 then endless (item py depth (frames.length + 1))
      else times (item py depth (frames.length + 1)) len.toNat >>= fun values =>
        afterValue py depth frames (.array (r ++ values)) := by
  have hmeaning : Task.meaning py depth ⟨⟨len, r⟩ :: frames, .marker⟩ =
      item py depth (frames.length + 1) >>= afterValue py depth (⟨len, r⟩ :: frames) := rfl
  rw [hmeaning]
  split
  · next hneg =>
    rw [Scan.endless_round rfl item_takes]
    refine congrArg _ (funext fun value => ?_)
    rw [afterValue]
    exact if_pos (by dsimp only; omega)
  · next hneg =>
    obtain ⟨n, hn⟩ : ∃ n, len.toNat = n + 1 := Nat.exists_eq_succ_of_ne_zero (by omega)
    have hpred : (len - 1).toNat = n := by omega
    rw [hn, times, Scan.bind_bind]
    refine congrArg _ (funext fun value => ?_)
    rw [afterValue, if_neg (by dsimp only; omega), hpred, Scan.bind_bind]
    rfl

theorem finish_means (frames : List ArrayRead) (value : Arg) :
    (finish frames value).elim (Task.meaning py depth) pure = afterValue py depth frames value := by
  induction frames generalizing value with
  | nil => rfl
  | cons frame frames ih =>
    simp only [finish]
    by_cases hlen : frame.len - 1 = 0
    · rw [if_pos hlen, ih, afterValue, if_neg (by omega), hlen]
      rfl
    · rw [if_neg hlen]
      refine (frame_means hlen _ frames).trans ?_
      rw [afterValue]
      simp only [List.append_assoc, List.singleton_append]

theorem count_means (frames : List ArrayRead) (len : Int) :
    (afterCount frames len).elim (Task.meaning py depth) pure =
      (if len < 0 then endless (item py depth (frames.length + 1))
        else times (item py depth (frames.length + 1)) len.toNat) >>= fun items =>
        afterValue py depth frames (.array items) := by
  unfold afterCount
  by_cases hlen : len = 0
  · rw [if_pos hlen, finish_means, hlen]
    rfl
  · rw [if_neg hlen]
    refine (frame_means hlen [] frames).trans ?_
    split
    · exact (Scan.endless_bind _).symm
    · rfl

theorem marker_means (frames : List ArrayRead) (c : UInt8) :
    (ofOption (((dispatchMarker (depth - frames.length) c).map fun await => Task.mk frames await).map
        Sum.inl) >>= Sum.elim (Task.meaning py depth) pure : Scan UInt8 (List Arg)) =
      receiveResp py (depth - frames.length) c >>= afterValue py depth frames := by
  cases hdepth : depth - frames.length with
  | zero => rfl
  | succ d =>
    have hitem : item py depth (frames.length + 1) = (next >>= receiveResp py d) := by
      rw [item, Nat.sub_add_eq, hdepth]
      rfl
    rw [dispatchMarker, if_neg (Nat.succ_ne_zero d), receiveResp]
    split
    · rw [Scan.bind_bind]
      rfl
    split
    · rw [Scan.bind_bind]
      rfl
    split
    · rw [Scan.bind_bind, ← hitem]
      rfl
    split
    · rw [Scan.bind_bind]
      rfl
    · rfl

theorem ofOption_map {α β γ : Type} (x : Option α) (f : α → β) (g : β → Scan UInt8 γ) :
    ofOption (x.map f) >>= g = ofOption x >>= fun a => g (f a) := by
  cases x <;> rfl

/-- One read after the other, a task reads what the readers read at once. -/
theorem task_denotes : Denotes (Task.read py depth) (Task.meaning py depth) := by
  rintro ⟨frames, await⟩
  cases await with
  | marker =>
    have hread : Task.read py depth ⟨frames, .marker⟩ >>= Sum.elim (Task.meaning py depth) pure =
        next >>= fun c => ofOption ((afterMarker depth frames c).map Sum.inl) >>=
          Sum.elim (Task.meaning py depth) pure := Scan.bind_bind _ _ _
    rw [hread]
    cases frames with
    | nil =>
      refine congrArg (next >>= ·) (funext fun c => ?_)
      by_cases hc : c ∈ markers
      · rw [if_pos hc, afterMarker, if_neg (by simp [hc])]
        exact (marker_means [] c).symm
      · rw [if_neg hc, afterMarker, if_pos ⟨rfl, hc⟩]
        rfl
    | cons frame frames =>
      refine (Scan.bind_bind _ _ _).trans (congrArg _ (funext fun c => ?_))
      rw [afterMarker, if_neg (by simp)]
      exact (marker_means (frame :: frames) c).symm
  | raw c =>
    simp only [Task.read, Task.meaning, Scan.bind_bind, ofOption_map]
    refine congrArg _ (funext fun line => ?_)
    cases decode (c :: line) <;> rfl
  | int | float =>
    simp only [Task.read, Task.meaning, Scan.bind_bind]
    refine congrArg _ (funext fun x => ?_)
    exact (finish_means frames _).symm
  | size =>
    simp only [Task.read, Task.meaning, readBytes, Scan.bind_bind]
    rfl
  | data len =>
    simp only [Task.read, Task.meaning, Scan.bind_bind, ofOption_map]
    refine congrArg _ (funext fun line => congrArg _ (funext fun x => ?_))
    exact (finish_means frames _).symm
  | count =>
    simp only [Task.read, Task.meaning, readArray, Scan.bind_bind]
    refine congrArg _ (funext fun len => ?_)
    exact (count_means frames len).symm

theorem number_ne_nil {α : Type} {ofText : String → Option α} {w : Bytes} {x : α}
    (h : Number ofText w x) : w ≠ [] := by
  obtain ⟨line, text, rfl, -⟩ := h
  exact List.append_ne_nil_of_right_ne_nil line (List.cons_ne_nil _ _)

theorem task_steady (task : Task) : Steady (task.read py depth) := by
  obtain ⟨frames, await⟩ := task
  cases await with
  | marker =>
    refine Coroutine.steady_of_recognises (Recognises.next.bind_option _) ?_
    rintro w x ⟨c, rfl, -⟩
    exact List.cons_ne_nil c []
  | raw c =>
    refine Coroutine.steady_of_recognises (recognises_readuntil.bind_option _) ?_
    rintro w x ⟨line, ⟨rfl, text, rfl, -⟩, -⟩
    exact List.append_ne_nil_of_right_ne_nil text (List.cons_ne_nil _ _)
  | int =>
    refine Coroutine.steady_of_recognises ((recognises_number py.intOf).map _) ?_
    rintro w x ⟨n, hn, -⟩
    exact number_ne_nil hn
  | float =>
    refine Coroutine.steady_of_recognises ((recognises_number py.floatOf).map _) ?_
    rintro w x ⟨n, hn, -⟩
    exact number_ne_nil hn
  | size =>
    refine Coroutine.steady_of_recognises ((recognises_number py.intOf).map _) ?_
    rintro w x ⟨n, hn, -⟩
    exact number_ne_nil hn
  | data len =>
    refine Coroutine.steady_of_recognises ((Recognises.take _).bind_option _) ?_
    rintro w x ⟨line, ⟨rfl, hlength⟩, -⟩
    refine List.ne_nil_of_length_pos ?_
    omega
  | count =>
    refine Coroutine.steady_of_recognises ((recognises_number py.intOf).map _) ?_
    rintro w x ⟨n, hn, -⟩
    exact number_ne_nil hn

variable (py depth) in
theorem run_reaches (task : Task) (s : Bytes) :
    Reaches (Task.meaning py depth) task s (task.run py depth s) :=
  Coroutine.push_reaches task_steady task_denotes (Nat.lt_succ_self _)

end Livelock.CommandTask
