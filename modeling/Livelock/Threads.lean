import Livelock.Client
import Livelock.CommandSpec

namespace Livelock.Threads

open Livelock.Lib Livelock.Shared Livelock.MemoryStorage Livelock.Server Livelock.CommandSpec
open Livelock.ServerRun Livelock.ClientReader
open Livelock.Client (LiveLock payload)

abbrev ObjId := Nat

/-- A with-block that execution is inside of. It is `undone` once the exit of
an inner block has begun to release the same lock. -/
structure Block where
  obj : ObjId
  undone : Bool := false

/-- Where the client stands between two of its with-statements, or inside the
`__enter__` or the `__exit__` of one. -/
inductive Phase
  | running
  | asking (obj : ObjId)
  | asked (obj : ObjId)
  | refused (obj : ObjId)
  | returning (obj : ObjId)
  | returned (obj : ObjId)

/-- A client that uses its connection for lock objects only. Its with-blocks
are listed from the innermost one. -/
structure Thread where
  maxPayload : Nat
  objects : ObjId → LiveLock
  blocks : List Block := []
  phase : Phase := .running
  received : Bytes := []

/-- What a client can do by itself. -/
inductive Move
  | enter (obj : ObjId)
  | read
  | retry
  | giveUp
  | leave

namespace Thread

variable (py : Builtins) (t : Thread)

def setAcquired (obj : ObjId) (acquired : Bool) : Thread :=
  { t with objects := Function.update t.objects obj { t.objects obj with acquired := acquired } }

def inside (obj : ObjId) : Thread :=
  { t with blocks := { obj := obj } :: t.blocks, phase := .running }

/-- The blocks around one whose exit releases `l`. -/
def undo (l : LockId) (blocks : List Block) : List Block :=
  blocks.map fun b => if (t.objects b.obj).id = l then { b with undone := true } else b

def fits (ws : List String) : Bool := decide ((payload ws).length ≤ t.maxPayload + 1)

def move : Move → Option Thread
  | .enter obj =>
    match t.phase with
    | .running =>
      let lock := t.objects obj
      if 0 ≤ lock.timeout ∧ t.fits lock.acquireWords then some { t with phase := .asking obj }
      else some t
    | _ => none
  | .read =>
    match t.phase, readResponse py t.received with
    | .asked _, some (.error _ _, rest) => some { t with phase := .running, received := rest }
    | .asked obj, some (resp, rest) =>
      let t := { t with received := rest }
      if resp.str? = some "1" then some ((t.setAcquired obj true).inside obj)
      else if (t.objects obj).blocking then some { t with phase := .refused obj }
      else some ((t.setAcquired obj false).inside obj)
    | .returned _, some (.error _ _, rest) => some { t with phase := .running, received := rest }
    | .returned obj, some (_, rest) =>
      some { t.setAcquired obj false with phase := .running, received := rest }
    | _, _ => none
  | .retry =>
    match t.phase with
    | .refused obj => some { t with phase := .asking obj }
    | _ => none
  | .giveUp =>
    match t.phase with
    | .refused obj => if (t.objects obj).timeout ≤ 0 then none else some { t with phase := .running }
    | _ => none
  | .leave =>
    match t.phase, t.blocks with
    | .running, b :: blocks =>
      let lock := t.objects b.obj
      if lock.acquired && t.fits lock.releaseWords then
        some { t with blocks := t.undo lock.id blocks, phase := .returning b.obj }
      else some { t with blocks := blocks }
    | _, _ => none

def request : Option (List String) :=
  match t.phase with
  | .asking obj => some (t.objects obj).acquireWords
  | .returning obj => some (t.objects obj).releaseWords
  | _ => none

def replied (data : Bytes) : Thread :=
  { t with
    phase :=
      match t.phase with
      | .asking obj => .asked obj
      | .returning obj => .returned obj
      | phase => phase
    received := t.received ++ data }

/-- Execution is inside a with-block whose lock object for `l` is acquired. -/
def Inside (l : LockId) : Prop :=
  ∃ b ∈ t.blocks, (t.objects b.obj).id = l ∧ (t.objects b.obj).acquired = true

/-- Execution is inside a with-block of an acquired object and has not begun to exit an inner
acquired block of the same lock since it entered it. -/
def Holds (l : LockId) : Prop :=
  ∃ b ∈ t.blocks, (t.objects b.obj).id = l ∧ (t.objects b.obj).acquired = true ∧ b.undone = false

instance (l : LockId) : Decidable (t.Inside l) := inferInstanceAs (Decidable (∃ b ∈ t.blocks, _))

instance (l : LockId) : Decidable (t.Holds l) := inferInstanceAs (Decidable (∃ b ∈ t.blocks, _))

end Thread

variable {py : Builtins} {t t' : Thread} {own own' : LockId → Prop} {l : LockId}

namespace Thread

@[simp] theorem setAcquired_id (t : Thread) (obj : ObjId) (acquired : Bool) (obj' : ObjId) :
    ((t.setAcquired obj acquired).objects obj').id = (t.objects obj').id := by
  by_cases h : obj' = obj
  · subst h
    simp [setAcquired]
  · simp [setAcquired, h]

theorem setAcquired_false {obj obj' : ObjId}
    (h : ((t.setAcquired obj false).objects obj').acquired = true) :
    (t.objects obj').acquired = true := by
  by_cases ho : obj' = obj
  · subst ho
    simp [setAcquired] at h
  · simpa [setAcquired, ho] using h

theorem setAcquired_true {obj obj' : ObjId}
    (h : ((t.setAcquired obj true).objects obj').acquired = true) :
    obj' = obj ∨ (t.objects obj').acquired = true := by
  by_cases ho : obj' = obj
  · exact .inl ho
  · exact .inr (by simpa [setAcquired, ho] using h)

variable (py) in
inductive Moves (t : Thread) : Thread → Prop
  | stays : Moves t t
  | asks {obj : ObjId} : t.phase = .running ∨ t.phase = .refused obj → Moves t { t with phase := .asking obj }
  | givesUp {obj : ObjId} : t.phase = .refused obj → Moves t { t with phase := .running }
  | failed {obj : ObjId} {msg : String} {code : Option Int} {rest : Bytes} :
      t.phase = .asked obj ∨ t.phase = .returned obj →
      readResponse py t.received = some (.error msg code, rest) →
      Moves t { t with phase := .running, received := rest }
  | acquired {obj : ObjId} {resp : Response} {rest : Bytes} : t.phase = .asked obj →
      readResponse py t.received = some (resp, rest) → resp.str? = some "1" →
      Moves t (({ t with received := rest }.setAcquired obj true).inside obj)
  | refused {obj : ObjId} {resp : Response} {rest : Bytes} : t.phase = .asked obj →
      readResponse py t.received = some (resp, rest) →
      Moves t { t with phase := .refused obj, received := rest }
  | passed {obj : ObjId} {resp : Response} {rest : Bytes} : t.phase = .asked obj →
      readResponse py t.received = some (resp, rest) →
      Moves t (({ t with received := rest }.setAcquired obj false).inside obj)
  | returned {obj : ObjId} {resp : Response} {rest : Bytes} : t.phase = .returned obj →
      readResponse py t.received = some (resp, rest) →
      Moves t { t.setAcquired obj false with phase := .running, received := rest }
  | releases {b : Block} {blocks : List Block} : t.phase = .running → t.blocks = b :: blocks →
      Moves t { t with blocks := t.undo (t.objects b.obj).id blocks, phase := .returning b.obj }
  | leaves {b : Block} {blocks : List Block} : t.phase = .running → t.blocks = b :: blocks →
      Moves t { t with blocks := blocks }

theorem move_moves {m : Move} (h : t.move py m = some t') : Moves py t t' := by
  cases m with
  | enter obj =>
    simp only [move] at h
    split at h
    · next hp =>
      split at h
      · cases h
        exact .asks (.inl hp)
      · cases h
        exact .stays
    · cases h
  | read =>
    simp only [move] at h
    split at h
    · next hp hread =>
      cases h
      exact .failed (.inl hp) hread
    · next hp hread =>
      split at h
      · next hone =>
        cases h
        exact .acquired hp hread hone
      · split at h
        · cases h
          exact .refused hp hread
        · cases h
          exact .passed hp hread
    · next hp hread =>
      cases h
      exact .failed (.inr hp) hread
    · next hp hread =>
      cases h
      exact .returned hp hread
    · cases h
  | retry =>
    simp only [move] at h
    split at h
    · next hp =>
      cases h
      exact .asks (.inr hp)
    · cases h
  | giveUp =>
    simp only [move] at h
    split at h
    · next hp =>
      split at h
      · cases h
      · cases h
        exact .givesUp hp
    · cases h
  | leave =>
    simp only [move] at h
    split at h
    · next hp hb =>
      split at h
      · cases h
        exact .releases hp hb
      · cases h
        exact .leaves hp hb
    · cases h

/-- What is known of a thread whose client owns the locks `own`. -/
structure Ok (py : Builtins) (own : LockId → Prop) (t : Thread) : Prop where
  held : ∀ l, t.Holds l → own l
  clean : (∀ obj, t.phase ≠ .asked obj ∧ t.phase ≠ .returned obj) → t.received = []
  asked : ∀ obj, t.phase = .asked obj → ∃ r, readResponse py t.received = some (r, []) ∧
    (r.str? = some "1" → own (t.objects obj).id)
  returned : ∀ obj, t.phase = .returned obj → ∃ r, readResponse py t.received = some (r, [])
  given : ∀ obj, t.phase = .returning obj ∨ t.phase = .returned obj → ¬ t.Holds (t.objects obj).id

theorem ok_settled (hheld : ∀ l, t.Holds l → own l) (hclean : t.received = [])
    (hphase : t.phase = .running ∨ (∃ obj, t.phase = .asking obj) ∨ ∃ obj, t.phase = .refused obj) :
    t.Ok py own := by
  refine ⟨hheld, fun _ => hclean, fun obj hp => ?_, fun obj hp => ?_, fun obj hp => ?_⟩
  all_goals
    obtain h | ⟨obj', h⟩ | ⟨obj', h⟩ := hphase
    all_goals simp [h] at hp

theorem ok_mono (h : t.Ok py own) (hown : ∀ l, own l → own' l) : t.Ok py own' where
  held l hl := hown l (h.held l hl)
  clean := h.clean
  asked obj hp := by
    obtain ⟨r, hread, hone⟩ := h.asked obj hp
    exact ⟨r, hread, fun hr => hown _ (hone hr)⟩
  returned := h.returned
  given := h.given

theorem holds_mono (h : t'.Holds l) (hid : ∀ obj, (t'.objects obj).id = (t.objects obj).id)
    (hb : ∀ b ∈ t'.blocks, b.undone = false → (t'.objects b.obj).acquired = true →
      b ∈ t.blocks ∧ (t.objects b.obj).acquired = true) : t.Holds l := by
  obtain ⟨b, hmem, hl, hacquired, hundone⟩ := h
  obtain ⟨hmem', hacquired'⟩ := hb b hmem hundone hacquired
  exact ⟨b, hmem', by rw [← hid, hl], hacquired', hundone⟩

theorem holds_acquired {obj : ObjId} {rest : Bytes}
    (h : (({ t with received := rest }.setAcquired obj true).inside obj).Holds l) :
    l = (t.objects obj).id ∨ t.Holds l := by
  obtain ⟨b, hmem, hl, hacquired, hundone⟩ := h
  have hid : (t.objects b.obj).id = l := (setAcquired_id t obj true b.obj).symm.trans hl
  obtain ho | ho : b.obj = obj ∨ (t.objects b.obj).acquired = true := setAcquired_true hacquired
  · exact .inl (by rw [← hid, ho])
  · obtain rfl | hmem := List.mem_cons.mp hmem
    · exact .inl hid.symm
    · exact .inr ⟨b, hmem, hid, ho, hundone⟩

theorem holds_passed {obj : ObjId} {rest : Bytes}
    (h : (({ t with received := rest }.setAcquired obj false).inside obj).Holds l) : t.Holds l := by
  refine holds_mono h (setAcquired_id t obj false) fun b hmem hundone hacquired => ?_
  have ho : (t.objects b.obj).acquired = true := setAcquired_false hacquired
  obtain rfl | hmem := List.mem_cons.mp hmem
  · have hself : ((t.setAcquired obj false).objects obj).acquired = true := hacquired
    simp [setAcquired] at hself
  · exact ⟨hmem, ho⟩

/-- The exit of a block undoes all blocks around it that have its lock. -/
theorem holds_undo {b : Block} {blocks : List Block} (hb : t.blocks = b :: blocks) {phase : Phase}
    (h : { t with blocks := t.undo (t.objects b.obj).id blocks, phase := phase }.Holds l) :
    l ≠ (t.objects b.obj).id ∧ t.Holds l := by
  obtain ⟨x, hmem, hl, hacquired, hundone⟩ := h
  obtain ⟨y, hy, hx⟩ := List.mem_map.mp hmem
  split at hx
  · rw [← hx] at hundone
    cases hundone
  · next hne =>
    subst hx
    refine ⟨fun he => hne (hl.trans he), y, ?_, hl, hacquired, hundone⟩
    rw [hb]
    exact List.mem_cons_of_mem _ hy

theorem ok_moves (h : t.Ok py own) (hm : Moves py t t') : t'.Ok py own := by
  have hrest : ∀ {obj resp rest}, t.phase = .asked obj ∨ t.phase = .returned obj →
      readResponse py t.received = some (resp, rest) → rest = [] := by
    intro obj resp rest hp hread
    obtain ⟨r, hr⟩ : ∃ r, readResponse py t.received = some (r, []) := by
      obtain hp | hp := hp
      · obtain ⟨r, hr, -⟩ := h.asked obj hp
        exact ⟨r, hr⟩
      · exact h.returned obj hp
    rw [hr] at hread
    cases hread
    rfl
  cases hm with
  | stays => exact h
  | asks hp =>
    have hclean : t.received = [] := h.clean fun o => by
      obtain hp | hp := hp <;> simp [hp]
    exact ok_settled h.held hclean (.inr (.inl ⟨_, rfl⟩))
  | givesUp hp =>
    have hclean : t.received = [] := h.clean fun o => by simp [hp]
    exact ok_settled h.held hclean (.inl rfl)
  | failed hp hread => exact ok_settled h.held (hrest hp hread) (.inl rfl)
  | acquired hp hread hone =>
    refine ok_settled (fun l hl => ?_) (hrest (.inl hp) hread) (.inl rfl)
    obtain ⟨r, hr, hown⟩ := h.asked _ hp
    rw [hr] at hread
    cases hread
    obtain rfl | hl := holds_acquired hl
    · exact hown hone
    · exact h.held l hl
  | refused hp hread =>
    exact ok_settled h.held (hrest (.inl hp) hread) (.inr (.inr ⟨_, rfl⟩))
  | passed hp hread =>
    exact ok_settled (fun l hl => h.held l (holds_passed hl)) (hrest (.inl hp) hread) (.inl rfl)
  | returned hp hread =>
    refine ok_settled (fun l hl => h.held l ?_) (hrest (.inr hp) hread) (.inl rfl)
    exact holds_mono hl (setAcquired_id t _ false) fun b hb _ ha => ⟨hb, setAcquired_false ha⟩
  | releases hp hb =>
    have hclean : t.received = [] := h.clean fun o => by simp [hp]
    refine ⟨fun l hl => h.held l (holds_undo hb hl).2, fun _ => hclean, nofun, nofun, fun obj ho => ?_⟩
    intro hl
    obtain ho | ho := ho
    · cases ho
      exact (holds_undo hb hl).1 rfl
    · cases ho
  | leaves hp hb =>
    have hclean : t.received = [] := h.clean fun o => by simp [hp]
    refine ok_settled (fun l hl => h.held l ?_) hclean (.inl hp)
    exact holds_mono hl (fun _ => rfl) fun b hmem _ ha => ⟨by rw [hb]; exact .tail _ hmem, ha⟩

end Thread

structure Thread.Idle (t : Thread) : Prop where
  phase : t.phase = .running
  blocks : t.blocks = []
  received : t.received = []

theorem Thread.Idle.ok (h : t.Idle) : t.Ok py own := by
  refine ok_settled (fun l hl => ?_) h.received (.inl h.phase)
  obtain ⟨b, hb, -⟩ := hl
  rw [h.blocks] at hb
  cases hb

variable (py) in
theorem request_verb {ws : List String} (h : t.request = some ws) :
    ∃ obj verb, ws = [verb, (t.objects obj).id] ∧
      ((t.phase = .asking obj ∧ Verb.named (py.lower verb) =
          if (t.objects obj).reentrant then .aqr else .aq) ∨
        (t.phase = .returning obj ∧ Verb.named (py.lower verb) = .release)) := by
  unfold Thread.request at h
  split at h
  · next obj hp =>
    cases h
    refine ⟨obj, _, rfl, .inl ⟨hp, ?_⟩⟩
    cases (t.objects obj).reentrant with
    | false => exact named_lower py rfl (by decide +kernel)
    | true => exact named_lower py rfl (by decide +kernel)
  · next obj hp =>
    cases h
    exact ⟨obj, _, rfl, .inr ⟨hp, named_lower py rfl (by decide +kernel)⟩⟩
  · cases h

theorem replied_asking {obj : ObjId} {data : Bytes} (h : t.phase = .asking obj) :
    t.replied data = { t with phase := .asked obj, received := t.received ++ data } := by
  simp [Thread.replied, h]

theorem replied_returning {obj : ObjId} {data : Bytes} (h : t.phase = .returning obj) :
    t.replied data = { t with phase := .returned obj, received := t.received ++ data } := by
  simp [Thread.replied, h]

end Livelock.Threads
