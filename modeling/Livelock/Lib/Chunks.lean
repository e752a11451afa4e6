import Livelock.Lib.Prog
import Livelock.Lib.Scan
import Livelock.Lib.Reader

namespace Livelock.Lib.Chunks

variable {σ : Type} {E : Type} {R : E → Type} {X α β ι S : Type}

/-- Where a program is that takes the answers to its calls from a stream: it is
over, or it waits in a call with what is too little for it. -/
inductive Point (σ : Type) (E : Type) (R : E → Type) (X α : Type)
  | ret (a : α) (rest : List σ)
  | raise (x : X) (rest : List σ)
  | wait (e : E) (next : R e → Prog E R X α) (rest : List σ)

/-- What a scan has decided does not change when more comes. -/
structure Stable (p : Scan σ α) : Prop where
  done : ∀ {s a rest}, p s = .done a rest → ∀ t, p (s ++ t) = .done a (rest ++ t)
  raised : ∀ {s}, p s = .raised → ∀ t, p (s ++ t) = .raised

theorem stable_of_recognises {p : Scan σ α} {L : Scan.Lang σ α} (h : Scan.Recognises p L) : Stable p :=
  ⟨fun hs t => h.done hs t, fun hs t => h.raises hs t⟩

section

-- how a call takes its answer, and what it raises when its scan does
variable (scan : (e : E) → Scan σ (R e)) (fault : E → X)

/-- How far a program gets with the symbols that have come. -/
def advance : Prog E R X α → List σ → Point σ E R X α
  | .ret a, s => .ret a s
  | .raise x, s => .raise x s
  | .call e next, s =>
    match scan e s with
    | .done r rest => advance (next r) rest
    | .more => .wait e next s
    | .raised => .raise (fault e) s

def toReader (p : Prog E R X α) : Reader σ α := fun s =>
  match advance scan fault p s with
  | .ret a rest => some (a, rest)
  | .raise _ _ | .wait _ _ _ => none

variable {scan fault}

theorem advance_call (e : E) (next : R e → Prog E R X α) (s : List σ) :
    advance scan fault (.call e next) s =
      match scan e s with
      | .done r rest => advance scan fault (next r) rest
      | .more => .wait e next s
      | .raised => .raise (fault e) s := by
  rw [advance]

theorem advance_bind (p : Prog E R X α) (f : α → Prog E R X β) (s : List σ) :
    advance scan fault (p >>= f) s =
      match advance scan fault p s with
      | .ret a rest => advance scan fault (f a) rest
      | .raise x rest => .raise x rest
      | .wait e next rest => .wait e (fun r => next r >>= f) rest := by
  show advance scan fault (p.bind f) s = _
  induction p generalizing s with
  | ret a => rfl
  | raise x => rfl
  | call e next ih =>
    rw [Prog.bind, advance_call, advance_call]
    cases scan e s with
    | done r rest => exact ih r rest
    | more => rfl
    | raised => rfl

theorem toReader_bind (p : Prog E R X α) (f : α → Prog E R X β) :
    toReader scan fault (p >>= f) = toReader scan fault p >>= fun a => toReader scan fault (f a) := by
  funext s
  rw [toReader, advance_bind]
  cases hp : advance scan fault p s with
  | ret a rest =>
    have hs : toReader scan fault p s = some (a, rest) := by rw [toReader, hp]
    rw [Reader.bind_some hs]
    rfl
  | raise x rest =>
    have hs : toReader scan fault p s = none := by rw [toReader, hp]
    rw [Reader.bind_none hs]
  | wait e next rest =>
    have hs : toReader scan fault p s = none := by rw [toReader, hp]
    rw [Reader.bind_none hs]

theorem toReader_perform (e : E) : toReader scan fault (Prog.perform e) = fun s =>
    match scan e s with
    | .done r rest => some (r, rest)
    | .more | .raised => none := by
  funext s
  rw [toReader, Prog.perform, advance_call]
  cases scan e s <;> rfl

theorem toReader_some {p : Prog E R X α} {s rest : List σ} {a : α} :
    toReader scan fault p s = some (a, rest) ↔ advance scan fault p s = .ret a rest := by
  unfold toReader
  constructor
  · intro h
    split at h
    · next hp =>
      cases h
      exact hp
    · cases h
    · cases h
  · intro h
    rw [h]

end

/-- What comes of a call, or of a program, that takes chunks from a source when
it needs them. It is stuck where the source has nothing more to give. -/
inductive Pulled (S ι X α : Type)
  | got (a : α) (s : S) (source : List ι)
  | raised (x : X) (s : S) (source : List ι)
  | stuck (s : S)

/-- A program whose calls are answered by `op` from a state and a source. -/
def drive (op : (e : E) → S → List ι → Pulled S ι X (R e)) :
    Prog E R X α → S → List ι → Pulled S ι X α
  | .ret a, s, source => .got a s source
  | .raise x, s, source => .raised x s source
  | .call e next, s, source =>
    match op e s source with
    | .got r s source => drive op (next r) s source
    | .raised x s source => .raised x s source
    | .stuck s => .stuck s

section

variable (feed : ι → Except X (List σ)) (scan : (e : E) → Scan σ (R e)) (fault : E → X)

/-- A call that takes chunks until there is enough. -/
def pullCall (e : E) (s : List σ) (source : List ι) : Pulled (List σ) ι X (R e) :=
  match scan e s with
  | .done r rest => .got r rest source
  | .raised => .raised (fault e) s source
  | .more =>
    match source with
    | [] => .stuck s
    | i :: source =>
      match feed i with
      | .error x => .raised x s source
      | .ok chunk => pullCall e (s ++ chunk) source

def received : List ι → List σ
  | [] => []
  | i :: source =>
    match feed i with
    | .error _ => []
    | .ok chunk => chunk ++ received source

/-- The two have come to the same, up to a view of the states that are `ok`. -/
def Same (view : S → List σ) (ok : S → Prop) : Pulled S ι X α → Pulled (List σ) ι X α → Prop
  | .got a b source, .got a' s source' => a = a' ∧ ok b ∧ view b = s ∧ source = source'
  | .raised x b source, .raised x' s source' => x = x' ∧ ok b ∧ view b = s ∧ source = source'
  | .stuck b, .stuck s => ok b ∧ view b = s
  | _, _ => False

variable {feed scan fault}

theorem pullCall_done {e : E} {s rest : List σ} {r : R e} (h : scan e s = .done r rest) (source : List ι) :
    pullCall feed scan fault e s source = .got r rest source := by
  unfold pullCall
  rw [h]

/-- Where each call does what it should, so do programs. -/
theorem drive_same {view : S → List σ} {ok : S → Prop}
    {op : (e : E) → S → List ι → Pulled S ι X (R e)}
    (hop : ∀ e b source, ok b → Same view ok (op e b source) (pullCall feed scan fault e (view b) source))
    (p : Prog E R X α) (b : S) (source : List ι) (hb : ok b) :
    Same view ok (drive op p b source) (drive (pullCall feed scan fault) p (view b) source) := by
  induction p generalizing b source with
  | ret a => exact ⟨rfl, hb, rfl, rfl⟩
  | raise x => exact ⟨rfl, hb, rfl, rfl⟩
  | call e next ih =>
    have hcall := hop e b source hb
    simp only [drive]
    cases hp : op e b source with
    | got r b' source' =>
      cases hq : pullCall feed scan fault e (view b) source with
      | got r' s source'' =>
        rw [hp, hq] at hcall
        obtain ⟨rfl, hb', rfl, rfl⟩ := hcall
        exact ih r b' source' hb'
      | raised | stuck =>
        rw [hp, hq] at hcall
        exact hcall.elim
    | raised x b' source' =>
      cases hq : pullCall feed scan fault e (view b) source with
      | raised x' s source'' =>
        rw [hp, hq] at hcall
        exact hcall
      | got | stuck =>
        rw [hp, hq] at hcall
        exact hcall.elim
    | stuck b' =>
      cases hq : pullCall feed scan fault e (view b) source with
      | stuck s =>
        rw [hp, hq] at hcall
        exact hcall
      | got | raised =>
        rw [hp, hq] at hcall
        exact hcall.elim

def Stands (feed : ι → Except X (List σ)) (whole : Point σ E R X α) : Pulled (List σ) ι X α → Prop
  | .got a s source => whole = .ret a (s ++ received feed source)
  | .raised _ _ _ | .stuck _ => ∀ a rest, whole ≠ .ret a rest

variable (feed fault) in
theorem pullCall_stands (h : ∀ e, Stable (scan e)) (e : E) (next : R e → Prog E R X α) (s : List σ)
    (source : List ι) :
    match pullCall feed scan fault e s source with
    | .got r s' source' => advance scan fault (.call e next) (s ++ received feed source) =
        advance scan fault (next r) (s' ++ received feed source')
    | .raised _ _ _ | .stuck _ => ∀ a rest,
        advance scan fault (.call e next) (s ++ received feed source) ≠ .ret a rest := by
  induction source generalizing s with
  | nil =>
    rw [pullCall, received, List.append_nil, advance_call]
    cases hs : scan e s with
    | done r rest => simp only [received, List.append_nil]
    | more | raised => exact nofun
  | cons i source ih =>
    rw [pullCall]
    cases hs : scan e s with
    | done r rest =>
      rw [advance_call, (h e).done hs]
    | raised =>
      rw [advance_call, (h e).raised hs]
      exact nofun
    | more =>
      cases hi : feed i with
      | error x =>
        simp only [received, hi]
        rw [List.append_nil, advance_call, hs]
        exact nofun
      | ok chunk =>
        simp only [received, hi]
        rw [← List.append_assoc]
        exact ih (s ++ chunk)

variable (feed fault) in
theorem drive_stands (h : ∀ e, Stable (scan e)) (p : Prog E R X α) (s : List σ) (source : List ι) :
    Stands feed (advance scan fault p (s ++ received feed source))
      (drive (pullCall feed scan fault) p s source) := by
  induction p generalizing s source with
  | ret a => rfl
  | raise x => exact nofun
  | call e next ih =>
    have hcall := pullCall_stands feed fault h e next s source
    simp only [drive]
    cases hp : pullCall feed scan fault e s source with
    | got r s' source' =>
      simp only [hp] at hcall
      rw [hcall]
      exact ih r s' source'
    | raised x s' source' =>
      simp only [hp] at hcall
      exact hcall
    | stuck s' =>
      simp only [hp] at hcall
      exact hcall

/-- A program gets its value from a source in chunks just when it gets it from
the stream that the chunks make, and leaves the same behind. -/
theorem drive_got (h : ∀ e, Stable (scan e)) {view : S → List σ} {ok : S → Prop}
    {op : (e : E) → S → List ι → Pulled S ι X (R e)}
    (hop : ∀ e b source, ok b → Same view ok (op e b source) (pullCall feed scan fault e (view b) source))
    (p : Prog E R X α) (b : S) (source : List ι) (hb : ok b) (a : α) (rest : List σ) :
    advance scan fault p (view b ++ received feed source) = .ret a rest ↔
      ∃ b' source', drive op p b source = .got a b' source' ∧ ok b' ∧
        view b' ++ received feed source' = rest := by
  have hsame := drive_same hop p b source hb
  have hstands := drive_stands feed fault h p (view b) source
  constructor
  · intro hp
    rw [hp] at hstands
    cases hq : drive (pullCall feed scan fault) p (view b) source with
    | got a' s source' =>
      rw [hq] at hstands hsame
      obtain ⟨rfl, rfl⟩ := Point.ret.inj hstands
      cases hd : drive op p b source with
      | got a' b' source'' =>
        rw [hd] at hsame
        obtain ⟨rfl, hb', rfl, rfl⟩ := hsame
        exact ⟨b', source'', rfl, hb', rfl⟩
      | raised | stuck =>
        rw [hd] at hsame
        exact hsame.elim
    | raised | stuck =>
      rw [hq] at hstands
      exact absurd rfl (hstands a rest)
  · rintro ⟨b', source', hd, -, rfl⟩
    rw [hd] at hsame
    cases hq : drive (pullCall feed scan fault) p (view b) source with
    | got a' s source'' =>
      rw [hq] at hsame hstands
      obtain ⟨rfl, -, rfl, rfl⟩ := hsame
      exact hstands
    | raised | stuck =>
      rw [hq] at hsame
      exact hsame.elim

end

end Livelock.Lib.Chunks
