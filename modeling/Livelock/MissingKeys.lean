import Livelock.Framing

namespace Livelock.MissingKeys

open Livelock.Lib Livelock.Shared Livelock.MemoryStorage Livelock.StorageRun Livelock.Server
open Livelock.CommandSpec Livelock.ServerRun Livelock.ServerLease Livelock.ClientReader Livelock.Framing
open Livelock.Lib.Reader (Reads)

variable {py : Builtins} {cfg : Config} {msg : String} {n : Option Int}

theorem error_sign {s rest : Bytes} (h : readResponse py s = some (.error msg n, rest)) :
    s.head? = some '-'.toUInt8 := by
  cases s with
  | nil => cases h
  | cons c s =>
    rw [readResponse, Reader.bind_next] at h
    by_cases hvalue : c ∈ markers
    · rw [if_pos hvalue, Reader.bind_get] at h
      cases hread : receiveResp py (s.length + 1) c s with
      | none =>
        rw [Reader.bind_none hread] at h
        cases h
      | some p =>
        rw [Reader.bind_some hread] at h
        cases h
    rw [if_neg hvalue] at h
    by_cases htext : c = '+'.toUInt8
    · rw [if_pos htext] at h
      cases hline : readline s with
      | none =>
        rw [Reader.bind_none hline] at h
        cases h
      | some p =>
        rw [Reader.bind_some hline] at h
        cases hd : decode p.1 with
        | none =>
          rw [hd] at h
          cases h
        | some text =>
          rw [hd] at h
          cases h
    rw [if_neg htext] at h
    by_cases herror : c = '-'.toUInt8
    · exact congrArg some herror
    · rw [if_neg herror] at h
      cases h

def signs : List String := ["^", "$", "$-1", ":", "#t", "#f", "*", "%", ","]

theorem packResp_sign {v : Value} {w : Bytes} (h : packResp py v = some w) :
    ∃ sign ∈ signs, encode sign <+: w := by
  have happend : ∀ sign (a b : Bytes), encode sign <+: encode sign ++ a ++ b := by
    intro sign a b
    rw [List.append_assoc]
    exact List.prefix_append _ _
  cases v with
  | none =>
    cases h
    exact ⟨"$-1", by decide, List.prefix_append _ _⟩
  | int n =>
    cases h
    exact ⟨":", by decide, happend _ _ _⟩
  | float x =>
    cases h
    exact ⟨",", by decide, happend _ _ _⟩
  | str s =>
    cases h
    exact ⟨"$", by decide, (happend _ _ _).trans ((List.prefix_append _ _).trans (List.prefix_append _ _))⟩
  | bytes data =>
    cases h
    exact ⟨"^", by decide, (happend _ _ _).trans ((List.prefix_append _ _).trans (List.prefix_append _ _))⟩
  | bool b =>
    cases h
    cases b with
    | true => exact ⟨"#t", by decide, List.prefix_append _ _⟩
    | false => exact ⟨"#f", by decide, List.prefix_append _ _⟩
  | list items | tuple items =>
    rw [packResp] at h
    obtain ⟨rest, -, rfl⟩ := Option.map_eq_some_iff.mp h
    exact ⟨"*", by decide, (happend _ _ _).trans (List.prefix_append _ _)⟩
  | dict items =>
    rw [packResp] at h
    obtain ⟨rest, -, rfl⟩ := Option.map_eq_some_iff.mp h
    exact ⟨"%", by decide, (happend _ _ _).trans (List.prefix_append _ _)⟩

theorem value_sign {v : Value} {w : Bytes} (h : packResp py v = some w) (rest : Bytes) :
    (w ++ rest).head? ≠ some '-'.toUInt8 := by
  obtain ⟨sign, hsign, tail, rfl⟩ := packResp_sign h
  have hsigns : ∀ sign ∈ signs, ∃ c ∈ (encode sign).head?, c ≠ '-'.toUInt8 := by decide
  obtain ⟨c, hc, hne⟩ := hsigns sign hsign
  rw [List.append_assoc, List.head?_append, Option.mem_def.mp hc]
  exact fun heq => hne (Option.some_inj.mp heq)

theorem text_sign (s : String) (rest : Bytes) :
    (encode (Content.text s).payload ++ rest).head? ≠ some '-'.toUInt8 := by
  rw [text_payload, List.cons_append, List.head?_cons]
  decide

theorem read_written {writes : List Write} (h : Reads (readResponse py) (sent py writes) (.error msg n)) :
    ∃ code : ErrorCode, Write.reply (.error code) ∈ writes ∧ n = some (code.number : Int) := by
  have hread : ∀ rest, readResponse py (sent py writes ++ rest) = some (.error msg n, rest) := h
  induction writes with
  | nil => cases h []
  | cons write writes ih =>
    have hcons : ∀ {w}, write.payload py = some w → sent py (write :: writes) = w ++ sent py writes := by
      intro w hw
      simp [sent, hw]
    have hplain : ∀ {w}, write.payload py = some w → (∀ rest, (w ++ rest).head? ≠ some '-'.toUInt8) → False := by
      intro w hw hno
      have hsign := error_sign (hread [])
      rw [hcons hw, List.append_nil] at hsign
      exact hno _ hsign
    cases write with
    | reply content =>
      cases content with
      | error code =>
        obtain ⟨msg', herror⟩ : ∃ msg', Reads (readResponse py) _ (.error msg' _) := reads_error code
        have hpayload : Write.payload py (.reply (.error code)) = some (encode (Content.error code).payload) := rfl
        rw [hcons hpayload] at h
        obtain ⟨heq, -⟩ := h.front herror
        cases heq
        exact ⟨code, List.mem_cons_self, rfl⟩
      | text s => exact (hplain rfl (text_sign s)).elim
      | bool b =>
        have hpayload : (Content.bool b).payload = (Content.text (if b then "1" else "0")).payload := by
          cases b <;> decide
        refine (hplain (w := encode (Content.text (if b then "1" else "0")).payload) ?_ (text_sign _)).elim
        rw [← hpayload]
        rfl
    | data v =>
      cases hv : packResp py v with
      | some w => exact (hplain hv (value_sign hv)).elim
      | none =>
        have hskip : sent py (.data v :: writes) = sent py writes := by
          simp [sent, Write.payload, hv]
        rw [hskip] at h hread
        obtain ⟨code, hcode, hn⟩ := ih h hread
        exact ⟨code, List.mem_cons_of_mem _ hcode, hn⟩

/-- Nowhere does the turn say that a lock has no entry. -/
def Lacks (t : Turn) : Prop := Write.reply (.error .keyNotExists) ∉ t.writes

variable {t : Turn} {c : ClientId} {uuid : ClientId}

theorem lacks_reply (h : Lacks t) {content : Content} (hc : content ≠ .error .keyNotExists) :
    Lacks (t.reply content) := by
  intro hmem
  obtain hold | hnew := List.mem_append.mp hmem
  · exact h hold
  · exact hc (Write.reply.inj (List.mem_singleton.mp hnew)).symm

theorem lacks_data (h : Lacks t) (v : Value) : Lacks (t.replyData v) := by
  intro hmem
  obtain hold | hnew := List.mem_append.mp hmem
  · exact h hold
  · cases List.mem_singleton.mp hnew

theorem lacks_call {result : Except Raised (Answer × StorageAdaptor × Clock)} {next : Answer → Turn → Turn}
    (h : Lacks t) (hnext : ∀ answer t, Lacks t → Lacks (next answer t)) : Lacks (t.call result next) := by
  cases result with
  | error => exact h
  | ok r => exact hnext _ _ h

theorem oneArg_lacks (h : Lacks t) {args : List Arg} {use : String → Turn} {op : String → Op}
    (hnone : (oneText args).map op = none) : Lacks (t.oneArg args use) := by
  rw [Turn.oneArg, Option.map_eq_none_iff.mp hnone]
  exact lacks_reply h (by decide)

theorem twoArgs_lacks (h : Lacks t) {args : List Arg} {use : String → String → Turn} {op : String × String → Op}
    (hnone : (twoTexts args).map op = none) : Lacks (t.twoArgs args use) := by
  rw [Turn.twoArgs, Option.map_eq_none_iff.mp hnone]
  exact lacks_reply h (by decide)

theorem serve_lacks (h : Lacks t) {verb : Verb} {args : List Arg} (hnone : operationOf py c verb args = none) :
    Lacks (t.serve py cfg c verb args) := by
  have hreply : ∀ content, content ≠ .error .keyNotExists → Lacks (t.reply content) :=
    fun content hc => lacks_reply h hc
  cases verb with
  | aq | aqr | release | locked => exact oneArg_lacks h hnone
  | sigset | sigexists | sigdel => exact twoArgs_lacks h hnone
  | conninfo =>
    have hinfo : ∀ text, Lacks ({ t with
        session := { t.session with clientInfo := some text } }.reply (.bool true)) :=
      fun text => lacks_reply h (by decide)
    exact oneArg_cases (hreply _ (by decide)) hinfo args
  | find =>
    match args with
    | [] | _ :: _ :: _ => exact hreply _ (by decide)
    | [arg] =>
      have htext : arg.text = none := Option.map_eq_none_iff.mp hnone
      simp only [Turn.serve]
      split
      · next htruthy =>
        rw [Arg.text, if_pos htruthy] at htext
        rw [htext]
        exact h
      · exact hreply _ (by decide)
  | ping | pass | conn | unknown => exact hreply _ (by decide)
  | stats =>
    simp only [Turn.serve]
    split
    · exact lacks_data h _
    · exact hreply _ (by decide)
  | shutdown | dump =>
    simp only [Turn.serve]
    split
    · exact hreply _ (by decide)
    · exact hreply _ (by decide)

theorem register_lacks (h : Lacks t) : Lacks (t.register py c) :=
  lacks_call h fun _ _ ht => lacks_reply ht (by simp)

theorem conn_lacks (h : Lacks t) (args : List Arg) : Lacks (t.conn py uuid args) := by
  have hfirst : Lacks (if t.session.clientId.isSome then t.reply (.error .connHasId) else t) := by
    split
    · exact lacks_reply h (by decide)
    · exact h
  unfold Turn.conn
  generalize (if t.session.clientId.isSome then t.reply (.error .connHasId) else t) = t₀ at hfirst
  cases args with
  | nil => exact register_lacks hfirst
  | cons arg args =>
    dsimp only
    split
    · split
      · exact hfirst
      · exact lacks_call hfirst fun _ _ ht => register_lacks ht
    · exact lacks_reply hfirst (by decide)

theorem dispatch_lacks (h : Lacks t) {verb : Verb} {args : List Arg}
    (hnone : ∀ c, t.session.clientId = some c → verb ≠ .conn → operationOf py c verb args = none) :
    Lacks (t.dispatch py cfg uuid verb args) := by
  unfold Turn.dispatch
  split
  · exact conn_lacks h args
  · next hconn =>
    cases hc : t.session.clientId with
    | none => exact lacks_reply h (by decide)
    | some c => exact serve_lacks h (hnone c hc hconn)

end Livelock.MissingKeys
