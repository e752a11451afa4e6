import Livelock.Framing
import Livelock.Ascii

namespace Livelock.ReplyFraming

open Livelock.Lib Livelock.Shared Livelock.MemoryStorage Livelock.StorageRun Livelock.Server
open Livelock.ServerRun Livelock.ServerLease Livelock.ClientReader Livelock.Framing Livelock.Ascii
open Livelock.Lib.Reader (Reads Aligned)
open Livelock.CommandSpec (decode_arg)

variable (py : Builtins) (cfg : Config)

def frames (k : ConnId) (es : List Occurrence) : List Bytes :=
  es.filterMap fun o =>
    match o.event with
    | .command j _ _ => if j = k then some (sent py o.writes) else none
    | _ => none

def WellFormed (value : List Arg) : Prop :=
  ∃ verb args, value = words (verb :: args) ∧ ∀ arg ∈ args, arg ≠ ""

/-- A `CONN` on connection `k` finds it without a client id, and the id it
brings has no LF in it. -/
def Tidy (k : ConnId) (sv : Server) (o : Occurrence) : Prop :=
  ∀ uuid verb args session, o.event = .command k uuid (words (verb :: args)) →
    sv.connections.get? k = some session → Verb.named (py.lower verb) = .conn →
      session.clientId = none ∧ ∀ arg, args.head? = some arg → '\n' ∉ arg.toList

/-- The commands on connection `k` are well formed, and `uuid4` makes ids of
printable characters. -/
def Plain (k : ConnId) (o : Occurrence) : Prop :=
  ∀ uuid value, o.event = .command k uuid value → Graphic uuid.name ∧ WellFormed value

variable {py cfg} {sv sv' : Server} {o : Occurrence} {k : ConnId} {uuid : ClientId}
  {session : Session} {value : List Arg}

/-- A tidy command is answered by one response. -/
theorem tidy_sent (h : Sound sv) (hs : Steps py cfg sv o sv') (he : o.event = .command k uuid value)
    (hadm : Admitted cfg k sv) (hplain : Plain k o) (htidy : Tidy py k sv o) :
    ∃ r, Reads (readResponse py) (sent py o.writes) r := by
  obtain ⟨hgraphic, verb, args, rfl, hargs⟩ := hplain uuid value he
  obtain ⟨session, hk⟩ := steps_session h hs he
  obtain ⟨-, write, hw, hframed⟩ | ⟨hconn, c, hname, hw⟩ :=
    command_writes h hs he hk (hadm.unlocked session hk) hargs
  · rw [hw]
    exact reads_sent hframed
  · obtain ⟨hid, hline⟩ := htidy uuid verb args session he hk hconn
    have hnewline : '\n' ∉ c.name.toList := by
      obtain ⟨-, rfl⟩ | hhead := hname
      · intro hmem
        exact absurd (hgraphic _ hmem).1 (by decide)
      · exact hline _ hhead
    rw [hw, hid]
    exact reads_sent (framed_text hnewline)

theorem tidy_of_sent (h : Sound sv) (hs : Steps py cfg sv o sv') (hadm : Admitted cfg k sv)
    (hplain : Plain k o)
    (hread : ∀ uuid value, o.event = .command k uuid value →
      ∃ r, readResponse py (sent py o.writes) = some (r, [])) : Tidy py k sv o := by
  intro uuid verb args session he hk hconn
  obtain ⟨r, hread⟩ := hread _ _ he
  have hargs : ∀ arg ∈ args, arg ≠ "" := by
    obtain ⟨-, verb', args', hwords, hargs'⟩ := hplain _ _ he
    obtain ⟨-, rfl⟩ := List.cons.inj (words_inj hwords)
    exact hargs'
  obtain ⟨hnot, -⟩ | ⟨-, c, hname, hw⟩ := command_writes h hs he hk (hadm.unlocked session hk) hargs
  · exact absurd hconn hnot
  · have hid : session.clientId = none := by
      cases hc : session.clientId with
      | none => rfl
      | some c' =>
        -- the error is one response, and the id is left over
        obtain ⟨msg, herror⟩ : ∃ msg, Reads (readResponse py) _ (.error msg _) := reads_error .connHasId
        have hsent : sent py o.writes = encode (Content.error .connHasId).payload ++
            encode (Content.text c.name).payload := by
          rw [hw, hc]
          simp [sent, Write.payload]
        rw [hsent, herror, text_payload] at hread
        cases hread
    refine ⟨hid, fun arg harg hmem => ?_⟩
    have hsent : sent py o.writes = encode (Content.text c.name).payload := by
      rw [hw, hid]
      simp [sent, Write.payload]
    obtain ⟨rfl, -⟩ | hhead := hname
    · cases harg
    · cases hhead.symm.trans harg
      rw [hsent] at hread
      exact broken_text hmem r hread

theorem frames_append (k : ConnId) (es fs : List Occurrence) :
    frames py k (es ++ fs) = frames py k es ++ frames py k fs := List.filterMap_append

theorem frames_command (he : o.event = .command k uuid value) :
    frames py k [o] = [sent py o.writes] := by
  simp [frames, he]

theorem frames_other (he : ∀ uuid value, o.event ≠ .command k uuid value) : frames py k [o] = [] := by
  unfold frames
  cases ho : o.event with
  | command j uuid value =>
    have hjk : j ≠ k := by
      rintro rfl
      exact he uuid value ho
    simp [ho, hjk]
  | connect | lost | maintenance => simp [ho]

theorem admitted_run {es : List Occurrence} (hrun : Run (Steps py cfg) sv es sv') (h : Sound sv)
    (hadm : Admitted cfg k sv) : Sound sv' ∧ Admitted cfg k sv' := by
  refine hrun.invariant (I := fun sv => Sound sv ∧ Admitted cfg k sv) ⟨h, hadm⟩ ?_
  rintro v e w - ⟨hv, ha⟩ hs
  exact ⟨sound_step hv hs, admitted_step hv hs ha⟩

theorem tidy_run {es : List Occurrence} (hrun : Run (Where (Steps py cfg) (Tidy py k)) sv es sv')
    (h : Sound sv) (hadm : Admitted cfg k sv) (hplain : ∀ o ∈ es, Plain k o) :
    ∀ w ∈ frames py k es, ∃ r, Reads (readResponse py) w r := by
  induction hrun with
  | nil => exact nofun
  | @snoc es e v w hrun hs ih =>
    obtain ⟨hv, ha⟩ := admitted_run hrun.of_where h hadm
    have hpast := ih fun o ho => hplain o (by simp [ho])
    intro frame hframe
    rw [frames_append, List.mem_append] at hframe
    obtain hframe | hframe := hframe
    · exact hpast frame hframe
    · by_cases he : ∃ uuid value, e.event = .command k uuid value
      · obtain ⟨uuid, value, he⟩ := he
        rw [frames_command he, List.mem_singleton] at hframe
        rw [hframe]
        exact tidy_sent hv hs.1 he ha (hplain e (by simp)) hs.2
      · rw [frames_other fun uuid value hc => he ⟨uuid, value, hc⟩] at hframe
        cases hframe

theorem aligned_run {es : List Occurrence} (hrun : Run (Steps py cfg) sv es sv') (h : Sound sv)
    (hadm : Admitted cfg k sv) (hplain : ∀ o ∈ es, Plain k o)
    (hal : Aligned (readResponse py) (frames py k es)) :
    Run (Where (Steps py cfg) (Tidy py k)) sv es sv' := by
  induction hrun with
  | nil => exact .nil
  | @snoc es e v w hrun hs ih =>
    obtain ⟨hv, ha⟩ := admitted_run hrun h hadm
    have hplain' : ∀ o ∈ es, Plain k o := fun o ho => hplain o (by simp [ho])
    rw [frames_append] at hal
    have hpast : Aligned (readResponse py) (frames py k es) := by
      by_cases he : ∃ uuid value, e.event = .command k uuid value
      · obtain ⟨uuid, value, he⟩ := he
        rw [frames_command he] at hal
        exact Reader.aligned_prefix hal
      · rw [frames_other fun uuid value hc => he ⟨uuid, value, hc⟩, List.append_nil] at hal
        exact hal
    have hrun' := ih hplain' hpast
    refine hrun'.snoc ⟨hs, tidy_of_sent hv hs ha (hplain e (by simp)) fun uuid value he => ?_⟩
    rw [frames_command he] at hal
    exact Reader.aligned_last hal (tidy_run hrun' h hadm hplain')

/-- On an admitted connection the client reads one response for each command,
in order and with nothing left over, exactly when each `CONN` comes on a
connection without a client id and brings no LF. -/
theorem replies_aligned {T : Time} {past es : List Occurrence}
    (hpast : Run (Steps py cfg) (.start T) past sv) (hk : sv.connections.get? k = some session)
    (hopen : lockedOut cfg session = false) (hrun : Run (Steps py cfg) sv es sv')
    (hplain : ∀ o ∈ es, Plain k o) : Aligned (readResponse py) (frames py k es) ↔
      Run (Where (Steps py cfg) (Tidy py k)) sv es sv' := by
  have h := sound_run hpast (sound_start T)
  have hadm : Admitted cfg k sv := by
    refine ⟨h.older k session hk, fun session' hk' => ?_⟩
    cases hk.symm.trans hk'
    exact hopen
  constructor
  · exact aligned_run hrun h hadm hplain
  · intro hrun'
    exact Reader.aligned_of_reads (tidy_run hrun' h hadm hplain)

def tidied (py : Builtins) (sv : Server) (event : Event) : Bool :=
  match event with
  | .command k _ (command :: args) =>
    match command.decode with
    | none => true
    | some verb =>
      if Verb.named (py.lower verb) = .conn then
        (idOf sv k).isNone && args.all fun arg => arg.decode.all fun s => !s.toList.contains '\n'
      else true
  | _ => true

theorem tidy_of_tidied (h : tidied py sv o.event = true) : Tidy py k sv o := by
  intro uuid verb args session he hk hconn
  rw [he] at h
  simp only [tidied, words, List.map_cons, decode_arg, hconn, if_true, Bool.and_eq_true, List.all_eq_true,
    List.mem_map, forall_exists_index, and_imp, forall_apply_eq_imp_iff₂, Option.all_some] at h
  obtain ⟨hid, hargs⟩ := h
  constructor
  · rw [idOf, hk] at hid
    simpa using hid
  · intro arg harg
    have hmem := hargs arg (List.mem_of_mem_head? harg)
    simpa using hmem

def connected (py : Builtins) (inputs : List Input) (f : Server → Input → Option Server) :
    Option Server :=
  ((allAt 0 [.connect ⟨"10.0.0.1", 40001⟩]).foldlM (Server.next py plainConfig) (.start 5)).bind
    fun sv => inputs.foldlM f sv

/-- Three commands, with a lock id that looks like replies. -/
theorem replies_aligned_three : ∃ es, (frames ascii 0 es).length = 3 ∧
    Aligned (readResponse ascii) (frames ascii 0 es) := by
  let f : Server → Input → Option Server := fun sv input =>
    if tidied ascii sv input.1 then sv.next ascii plainConfig input else none
  have heval : (connected ascii (allAt 0 [.command 0 bob (words ["CONN", "alice"]),
      .command 0 bob (words ["AQ", "+1\r\n+1"]), .command 0 bob (words ["FIND", "*"])]) f).isSome := by
    decide +kernel
  obtain ⟨sv', heval⟩ := Option.isSome_iff_exists.mp heval
  obtain ⟨sv, hconnect, hcommands⟩ := Option.bind_eq_some_iff.mp heval
  have hstep : ∀ input v w, f v input = some w →
      ∃ o, Plays input o ∧ Where (Steps ascii plainConfig) (Tidy ascii 0) v o w := by
    intro input v w hs
    simp only [f] at hs
    split at hs
    · next hok =>
      obtain ⟨o, ho, hs⟩ := plays_next input v w hs
      exact ⟨o, ho, hs, tidy_of_tidied (by rw [ho.1, hok])⟩
    · cases hs
  obtain ⟨es, hrun, hplays⟩ := Run.exists_of_foldlM hstep hcommands
  obtain ⟨past, hpast, -⟩ := play_run hconnect
  have hgraphic : Graphic bob.name := graphic_of_all rfl
  have hplain : ∀ o ∈ es, Plain 0 o := by
    refine forall₂_right hplays fun input hinput o ho uuid value he => ?_
    obtain ⟨event, hevent, rfl⟩ := List.mem_map.mp hinput
    rw [ho.1] at he
    simp only [List.mem_cons, List.not_mem_nil, or_false] at hevent
    obtain rfl | rfl | rfl := hevent <;> cases he <;> exact ⟨hgraphic, _, _, rfl, by decide⟩
  match es, hplays with
  | [o₁, o₂, o₃], .cons h₁ (.cons h₂ (.cons h₃ .nil)) =>
    obtain ⟨v, hs, -⟩ := hrun.of_where.cons_inv
    obtain ⟨session, hk⟩ := steps_session (sound_run hpast (sound_start 5)) hs h₁.1
    refine ⟨_, ?_, (replies_aligned hpast hk rfl hrun.of_where hplain).mpr hrun⟩
    simp only [frames, List.filterMap_cons, List.filterMap_nil, h₁.1, h₂.1, h₃.1, if_true]
    rfl

/-- The second `CONN` of Alice is answered twice. -/
theorem replies_doubled : ¬ ∀ past sv session es sv', Run (Steps ascii plainConfig) (.start 5) past sv →
    sv.connections.get? 0 = some session → Run (Steps ascii plainConfig) sv es sv' →
    (∀ o ∈ es, Plain 0 o) → Aligned (readResponse ascii) (frames ascii 0 es) := by
  intro h
  have heval : (connected ascii (allAt 0 [.command 0 bob (words ["CONN", "alice"])])
      (Server.next ascii plainConfig)).map (fun sv => (idOf sv 0, (sv.next ascii plainConfig
        (.command 0 bob (words ["CONN", "alice"]), fun _ => 0)).isSome)) = some (some alice, true) := by
    decide +kernel
  obtain ⟨sv, heval, hfacts⟩ := Option.map_eq_some_iff.mp heval
  obtain ⟨hid, hnext⟩ := Prod.mk.inj hfacts
  obtain ⟨sv', hnext⟩ := Option.isSome_iff_exists.mp hnext
  obtain ⟨sv₀, hconnect, hcommand⟩ := Option.bind_eq_some_iff.mp heval
  obtain ⟨past, hpast, -⟩ := play_run hconnect
  obtain ⟨past', hpast', -⟩ := play_run hcommand
  obtain ⟨o, ho, hs⟩ := plays_next _ sv sv' hnext
  have hsound := sound_run (hpast.append hpast') (sound_start 5)
  obtain ⟨session, hk, hc⟩ := Option.bind_eq_some_iff.mp hid
  have hplain : ∀ e ∈ [o], Plain 0 e := by
    intro e he uuid value hevent
    rw [List.mem_singleton.mp he, ho.1] at hevent
    cases hevent
    exact ⟨graphic_of_all rfl, _, _, rfl, by decide⟩
  have hal := h _ sv session [o] sv' (hpast.append hpast') hk (.single hs) hplain
  have hadm : Admitted plainConfig 0 sv := ⟨hsound.older 0 session hk, fun _ _ => rfl⟩
  obtain ⟨t, ⟨-, htidy⟩, -⟩ := (aligned_run (.single hs) hsound hadm hplain hal).cons_inv
  have hconn : Verb.named (ascii.lower "CONN") = .conn := by decide +kernel
  obtain ⟨hnone, -⟩ := htidy bob "CONN" ["alice"] session ho.1 hk hconn
  cases hc.symm.trans hnone

end Livelock.ReplyFraming
