import Livelock.ServerReader
import Livelock.Ascii

namespace Livelock.Pipeline

open Livelock.Lib Livelock.Shared Livelock.Server Livelock.ServerReader Livelock.Ascii

/-- A command as a client writes it: by `send_command` or, with its words
joined by blanks, by `send_raw_command`. -/
inductive Frame
  | resp (ws : List String)
  | raw (ws : List String)

namespace Frame

def words : Frame → List String
  | resp ws | raw ws => ws

def payload (py : Builtins) : Frame → Option Bytes
  | resp ws => packResp py (.list (ws.map .str))
  | raw ws => some (encode (" ".intercalate ws) ++ crlf)

/-- The lines of the frame are within the limit of the stream reader, and the
words of a raw one are not split, stripped or taken for RESP. -/
def Sendable : Frame → Prop
  | resp ws => (encode (toString ws.length)).length ≤ streamLimit ∧
      ∀ w ∈ ws, (encode (toString (encode w).length)).length ≤ streamLimit
  | raw ws => (encode (" ".intercalate ws)).length ≤ streamLimit + 1 ∧
      (∀ w ∈ ws, ∀ c ∈ w.toList, isspace c = false) ∧
      ∃ c cs, (ws.head?.map String.toList) = some (c :: cs) ∧ c ∉ [':', '*', '$', ',']

end Frame

variable {py : Builtins} {s : String} {ws : List String} {depth : Nat}

theorem isspace_graphic (hs : Graphic s) : ∀ c ∈ s.toList, isspace c = false := by
  intro c hc
  obtain ⟨hlow, hhigh⟩ := hs c hc
  simp only [isspace, List.mem_cons, List.not_mem_nil, or_false, Bool.or_eq_false_iff,
    decide_eq_false_iff_not]
  omega

theorem dropWhile_words {cs : List Char} (h : ∀ c ∈ cs, isspace c = false) :
    cs.dropWhile isspace = cs := by
  cases cs with
  | nil => rfl
  | cons c cs => rw [List.dropWhile_cons_of_neg (by simp [h c (by simp)])]

theorem strip_append {t : String} (h : ∀ c ∈ s.toList, isspace c = false)
    (ht : ∀ c ∈ t.toList, isspace c = true) : strip (s ++ t) = s := by
  have hdrop : (s.toList ++ t.toList).dropWhile isspace = s.toList ++ t.toList ∨
      s.toList = [] ∧ (s.toList ++ t.toList).dropWhile isspace = [] := by
    cases hs : s.toList with
    | nil => exact .inr ⟨rfl, List.dropWhile_eq_nil_iff.mpr ht⟩
    | cons c cs =>
      rw [hs] at h
      exact .inl (List.dropWhile_cons_of_neg (by simp [h c (by simp)]))
  have hreverse : ∀ c ∈ t.toList.reverse, isspace c = true := fun c hc => ht c (List.mem_reverse.mp hc)
  rw [strip, String.toList_append]
  obtain hdrop | ⟨hs, hdrop⟩ := hdrop
  · rw [hdrop, List.rdropWhile, List.reverse_append, List.dropWhile_append_of_pos hreverse,
      dropWhile_words fun c hc => h c (List.mem_reverse.mp hc), List.reverse_reverse, String.ofList_toList]
  · rw [hdrop, List.rdropWhile_nil, ← hs, String.ofList_toList]

theorem strip_word (h : ∀ c ∈ s.toList, isspace c = false) : strip s = s := by
  have hstrip := strip_append (t := "") h (by simp)
  rwa [String.append_empty] at hstrip

theorem strip_line (h : ∀ c ∈ s.toList, isspace c = false) : strip (s ++ "\r\n") = s := by
  have hcrlf : "\r\n".toList.all isspace = true := by decide
  exact strip_append h (List.all_eq_true.mp hcrlf)

theorem intercalate_last {α : Type} (sep l t : List α) (ls : List (List α)) :
    sep.intercalate (ls ++ [l]) ++ t = sep.intercalate (ls ++ [l ++ t]) := by
  induction ls with
  | nil => simp [List.intercalate_singleton]
  | cons l' ls ih =>
    rw [List.cons_append, List.cons_append, List.intercalate_cons_of_ne_nil (by simp),
      List.intercalate_cons_of_ne_nil (by simp), List.append_assoc, ih]

theorem split_line (hne : ws ≠ []) (h : ∀ w ∈ ws, ∀ c ∈ w.toList, isspace c = false) :
    (split (" ".intercalate ws ++ "\r\n")).map strip = ws := by
  have hblank : ∀ w ∈ ws, ' ' ∉ w.toList := fun w hw hc => by cases h w hw ' ' hc
  obtain ⟨ws, w, rfl⟩ := List.eq_nil_or_concat' ws |>.resolve_left hne
  have hsplit : split (" ".intercalate (ws ++ [w]) ++ "\r\n") = ws ++ [w ++ "\r\n"] := by
    have hjoin : (" ".intercalate (ws ++ [w]) ++ "\r\n").toList =
        [' '].intercalate (ws.map String.toList ++ [w.toList ++ "\r\n".toList]) := by
      rw [String.toList_append, String.toList_intercalate, List.map_append, ← intercalate_last]
      rfl
    rw [split, hjoin, List.splitOn_intercalate _ ?_ (by simp)]
    · simp [Function.comp_def, String.ofList_append]
    · intro l hl
      obtain hl | hl := List.mem_append.mp hl
      · obtain ⟨w', hw', rfl⟩ := List.mem_map.mp hl
        exact hblank w' (by simp [hw'])
      · rw [List.mem_singleton.mp hl, List.mem_append, not_or]
        exact ⟨hblank w (by simp), by decide⟩
  rw [hsplit, List.map_append, List.map_singleton, strip_line (h w (by simp))]
  congr 1
  have hstrip : ∀ w' ∈ ws, strip w' = w' := fun w' hw' => strip_word (h w' (by simp [hw']))
  rw [List.map_congr_left hstrip, List.map_id']

theorem rawRequest_line (hne : ws ≠ []) (h : ∀ w ∈ ws, ∀ c ∈ w.toList, isspace c = false) :
    rawRequest (" ".intercalate ws ++ "\r\n") = Server.words ws := by
  rw [rawRequest, Server.words]
  conv_rhs => rw [← split_line hne h, List.map_map]
  rfl

theorem line_of_newline {line : Bytes} (h : 10 ∉ line) (hlen : line.length ≤ streamLimit) : Line line :=
  ⟨fun hcrlf => h (hcrlf.subset (by decide)), hlen⟩

theorem number_str (n : Int) (hlen : (encode (toString n)).length ≤ streamLimit) :
    Number py.intOf (encode (toString n) ++ crlf) n := by
  have hg := graphic_str n
  refine ⟨_, toString n ++ "\r\n", rfl, line_of_newline (graphic_newline hg) hlen, ?_, ?_⟩
  · rw [← encode_line, decode_encode]
  · rw [strip_line (isspace_graphic hg), py.intOf_str]

theorem resp_str (hlen : (encode (toString (encode s).length)).length ≤ streamLimit) :
    Resp py (depth + 1) (packBlobStr s) (.bytes (encode s)) := by
  have hnumber : Number py.intOf (encode (toString (encode s).length) ++ crlf) (encode s).length :=
    number_str (encode s).length hlen
  have hsplit : packBlobStr s = '$'.toUInt8 ::
      (encode (toString (encode s).length) ++ crlf ++ (encode s ++ crlf)) := by
    simp only [packBlobStr, List.append_assoc]
    rfl
  exact ⟨_, _, hsplit, .bytes rfl (.some hnumber)⟩

theorem packItems_words (ws : List String) :
    packItems py (ws.map .str) = some (ws.map packBlobStr).flatten := by
  induction ws with
  | nil => rfl
  | cons w ws ih => simp [packItems, packResp, ih]

/-- What `send_command` writes is read as its words. -/
theorem request_resp (h : (Frame.resp ws).Sendable) :
    ∃ w, (Frame.resp ws).payload py = some w ∧ Request py (depth + 2) w (Server.words ws) := by
  obtain ⟨hlen, hws⟩ := h
  let w := encode (toString ws.length) ++ crlf ++ (ws.map packBlobStr).flatten
  have hpack : (Frame.resp ws).payload py = some ('*'.toUInt8 :: w) := by
    simp only [Frame.payload, packResp, packItems_words, Option.map_some, List.length_map, w,
      List.append_assoc]
    rfl
  have hnumber : Number py.intOf (encode (toString ws.length) ++ crlf) (Server.words ws).length := by
    have hcount : ((Server.words ws).length : Int) = ws.length := by rw [Server.words, List.length_map]
    rw [hcount]
    exact number_str ws.length hlen
  have hitems : List.Forall₂ (Resp py (depth + 1)) (ws.map packBlobStr) (Server.words ws) := by
    rw [Server.words, List.forall₂_map_left_iff, List.forall₂_map_right_iff, List.forall₂_same]
    exact fun s hs => resp_str (hws s hs)
  refine ⟨_, hpack, .resp (v := .array (Server.words ws)) (by decide) ⟨_, _, rfl, ?_⟩⟩
  exact .array rfl hnumber hitems

theorem head_markers {c : Char} {cs : List Char} {b : UInt8} {rest : Bytes}
    (h : (c :: cs).flatMap String.utf8EncodeChar = b :: rest) (hb : b ∈ markers) :
    c ∈ [':', '*', '$', ','] := by
  have hmem : b ∈ String.utf8EncodeChar c := by
    cases hc : String.utf8EncodeChar c with
    | nil => exact absurd hc String.utf8EncodeChar_ne_nil
    | cons b' bs =>
      rw [List.flatMap_cons, hc] at h
      obtain ⟨rfl, -⟩ := List.cons.inj h
      exact List.mem_cons_self
  have hmarkers : markers = [58, 42, 36, 44] := by decide
  rw [hmarkers] at hb
  simp only [List.mem_cons, List.not_mem_nil, or_false] at hb
  have hval : ∀ d : Char, c.toNat = d.toNat → c = d := fun d hd => Char.ext (UInt32.toNat_inj.mp hd)
  obtain rfl | rfl | rfl | rfl := hb
  · simp [hval ':' (mem_utf8EncodeChar (by decide) hmem)]
  · simp [hval '*' (mem_utf8EncodeChar (by decide) hmem)]
  · simp [hval '$' (mem_utf8EncodeChar (by decide) hmem)]
  · simp [hval ',' (mem_utf8EncodeChar (by decide) hmem)]

theorem newline_intercalate (h : ∀ w ∈ ws, ∀ c ∈ w.toList, isspace c = false) :
    '\n' ∉ (" ".intercalate ws).toList := by
  induction ws with
  | nil => simp
  | cons w ws ih =>
    have hw : '\n' ∉ w.toList := fun hc => by cases h w (by simp) '\n' hc
    cases ws with
    | nil => rwa [String.intercalate_singleton]
    | cons w' ws =>
      rw [String.intercalate_cons_cons, String.toList_append, String.toList_append, List.mem_append,
        List.mem_append, not_or, not_or]
      exact ⟨⟨hw, by decide⟩, ih fun w'' hw'' => h w'' (by simp [hw''])⟩

/-- What `send_raw_command` writes is read as its words, too. -/
theorem request_raw (h : (Frame.raw ws).Sendable) :
    ∃ w, (Frame.raw ws).payload py = some w ∧ Request py (depth + 2) w (Server.words ws) := by
  obtain ⟨hlen, hws, c, cs, hhead, hc⟩ := h
  obtain ⟨w, hw, hcs⟩ := Option.map_eq_some_iff.mp hhead
  have hne : ws ≠ [] := by
    rintro rfl
    cases hw
  obtain ⟨tail, htail⟩ : ∃ tail, (" ".intercalate ws).toList = c :: tail := by
    cases ws with
    | nil => exact absurd rfl hne
    | cons w' ws =>
      obtain rfl : w' = w := Option.some_inj.mp hw
      cases ws with
      | nil => exact ⟨cs, by rw [String.intercalate_singleton, hcs]⟩
      | cons w'' ws =>
        refine ⟨cs ++ " ".toList ++ (" ".intercalate (w'' :: ws)).toList, ?_⟩
        rw [String.intercalate_cons_cons, String.toList_append, String.toList_append, hcs]
        simp
  obtain ⟨b, line, hbytes⟩ : ∃ b line, encode (" ".intercalate ws) = b :: line := by
    cases he : encode (" ".intercalate ws) with
    | nil =>
      rw [encode_eq_nil.mp he] at htail
      cases htail
    | cons b line => exact ⟨b, line, rfl⟩
  have hmarker : b ∉ markers := by
    intro hb
    rw [encode_toList, htail] at hbytes
    exact hc (head_markers hbytes hb)
  have hnewline : 10 ∉ encode (" ".intercalate ws) := by
    rw [newline_mem_encode]
    exact newline_intercalate hws
  have hline : Line line := by
    refine line_of_newline (fun hmem => hnewline ?_) ?_
    · rw [hbytes]
      exact List.mem_cons_of_mem b hmem
    · rw [hbytes, List.length_cons] at hlen
      omega
  have hdecode : decode (b :: (line ++ crlf)) = some (" ".intercalate ws ++ "\r\n") := by
    rw [← List.cons_append, ← hbytes, ← encode_line, decode_encode]
  refine ⟨b :: (line ++ crlf), by rw [Frame.payload, hbytes]; rfl, ?_⟩
  rw [← rawRequest_line hne hws]
  exact .raw hmarker hline hdecode

variable (py depth) in
theorem request_frame {f : Frame} (h : f.Sendable) :
    ∃ w, f.payload py = some w ∧ Request py (depth + 2) w (Server.words f.words) := by
  cases f with
  | resp ws => exact request_resp h
  | raw ws => exact request_raw h

variable (py depth) in
theorem request_frames {frames : List Frame} (h : ∀ f ∈ frames, f.Sendable) : ∃ parts : List Bytes,
    frames.mapM (Frame.payload py) = some parts ∧
      List.Forall₂ (fun w f => Request py (depth + 2) w (Server.words f.words)) parts frames := by
  induction frames with
  | nil => exact ⟨[], rfl, .nil⟩
  | cons f frames ih =>
    obtain ⟨w, hw, hread⟩ := request_frame py depth (h f (by simp))
    obtain ⟨parts, hparts, hreads⟩ := ih fun f' hf' => h f' (by simp [hf'])
    exact ⟨w :: parts, by simp [hw, hparts], .cons hread hreads⟩

def record (log : List (List Arg)) (value : List Arg) : List (List Arg) × Bool := (log ++ [value], true)

def serveAll {σ : Type} (dispatch : σ → List Arg → σ × Bool) : σ → List (List Arg) → σ × Bool
  | st, [] => (st, true)
  | st, value :: values =>
    if (dispatch st value).2 then serveAll dispatch (dispatch st value).1 values
    else ((dispatch st value).1, false)

def outcome {σ : Type} : Loop σ → σ × Bool
  | .waiting st _ => (st, true)
  | .ended st _ => (st, false)

variable {σ : Type}

theorem outcome_dispatchAll (dispatch : σ → List Arg → σ × Bool) (rest : Bytes) (st : σ)
    (requests : List (Bytes × List Arg)) :
    outcome (dispatchAll dispatch rest st requests) = serveAll dispatch st (requests.map Prod.snd) := by
  induction requests generalizing st with
  | nil => rfl
  | cons r requests ih =>
    rw [dispatchAll, List.map_cons, serveAll]
    split
    · exact ih _
    · rfl

theorem dispatchAll_record (rest : Bytes) (log : List (List Arg)) (requests : List (Bytes × List Arg)) :
    dispatchAll record rest log requests = .waiting (log ++ requests.map Prod.snd) rest := by
  induction requests generalizing log with
  | nil => rw [dispatchAll, List.map_nil, List.append_nil]
  | cons r requests ih =>
    rw [dispatchAll, record, if_pos rfl, ih, List.map_cons, List.append_assoc]
    rfl

variable (py depth) in
/-- The server dispatches just the commands that were written, each as the
encodings of its words, and nothing is left over; what comes of them is the
same however they were written. -/
theorem stream_recovered (frames : List Frame) (h : ∀ f ∈ frames, f.Sendable) :
    ∃ parts, frames.mapM (Frame.payload py) = some parts ∧
      ∀ fuel, parts.flatten.length ≤ fuel →
        receiveCommands py (depth + 2) record fuel [] parts.flatten =
            .waiting (frames.map fun f => Server.words f.words) [] ∧
          ∀ (σ : Type) (dispatch : σ → List Arg → σ × Bool) (st : σ),
            outcome (receiveCommands py (depth + 2) dispatch fuel st parts.flatten) =
              serveAll dispatch st (frames.map fun f => Server.words f.words) := by
  obtain ⟨parts, hparts, hreads⟩ := request_frames py depth h
  let values := frames.map fun f => Server.words f.words
  have hlength : parts.length = values.length := by rw [hreads.length_eq, List.length_map]
  have hfst : ((parts.zip values).map Prod.fst) = parts := List.map_fst_zip hlength.le
  have hsnd : ((parts.zip values).map Prod.snd) = values := List.map_snd_zip hlength.ge
  have hrequests : ∀ r ∈ parts.zip values, Request py (depth + 2) r.1 r.2 := by
    have hforall : List.Forall₂ (Request py (depth + 2)) parts values :=
      List.forall₂_map_right_iff.mpr hreads
    exact fun r hr => List.forall₂_zip hforall hr
  refine ⟨parts, hparts, fun fuel hfuel => ?_⟩
  have hloop : ∀ {σ : Type} (dispatch : σ → List Arg → σ × Bool) (st : σ),
      receiveCommands py (depth + 2) dispatch fuel st parts.flatten =
        dispatchAll dispatch [] st (parts.zip values) := by
    intro σ dispatch st
    have hrest : readCommand py (depth + 2) [] = .more := rfl
    have hstream : ((parts.zip values).map Prod.fst).flatten ++ [] = parts.flatten := by
      rw [hfst, List.append_nil]
    rw [← hstream] at hfuel ⊢
    exact receive_requests hrequests hrest hfuel st
  constructor
  · rw [hloop, dispatchAll_record, hsnd, List.nil_append]
  · intro σ dispatch st
    rw [hloop, outcome_dispatchAll, hsnd]

theorem stream_recovered_two : ∃ stream : Bytes,
    receiveCommands ascii 2 record stream.length [] stream =
      .waiting [Server.words ["CONN", "alice"], Server.words ["AQ", ":a\r\nb c"]] [] := by
  have hsendable : ∀ f ∈ [Frame.raw ["CONN", "alice"], Frame.resp ["AQ", ":a\r\nb c"]], f.Sendable := by
    have hspaces : (["CONN", "alice"].all fun w => w.toList.all fun c => !isspace c) = true := by decide
    have hwords : ∀ w ∈ ["CONN", "alice"], ∀ c ∈ w.toList, isspace c = false := by
      simpa only [List.all_eq_true, Bool.not_eq_true'] using hspaces
    refine List.forall_mem_cons.mpr ⟨⟨by decide, hwords, 'C', "ONN".toList, rfl, by decide⟩, ?_⟩
    exact List.forall_mem_singleton.mpr ⟨by decide, by decide⟩
  obtain ⟨parts, -, hread⟩ := stream_recovered ascii 0 _ hsendable
  exact ⟨parts.flatten, (hread _ le_rfl).1⟩

end Livelock.Pipeline
