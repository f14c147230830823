import Overseer.Context
import Overseer.Record
import Overseer.Proofs.Codec.Timestamp

/-!
# Contexts and records are read back

What is written of a context or of a record is read back as it was, however the members of its objects are
ordered. The values that callers are free in, the arguments of tool calls and the metadata of records, may
hold words and nest less than 100 deep; the reader refuses what nests deeper than 127, and six levels stand
around an argument. What else a type can hold, counts in words, real dates and dictionaries, is told by `Fits`,
and all that is read from any text fits, so reading, writing and reading again gives what the first reading gave.

* `Context.reads_toJson`, `Record.reads_toJson`: what is written is read back.
* `Context.yields_fits`, `Record.yields_fits`: what is read fits its type.
* `roundTrip`: writing and reading, and reading, writing and reading.
-/
namespace Overseer

open Json Decoder

/-- A value that is read back wherever callers are free in it: its numbers are words, and it nests less than
100 deep. -/
structure Json.Modest (j : Json) : Prop where
  words : j.HasWords
  shallow : j.depth < 100

instance (j : Json) : Decidable j.Modest :=
  decidable_of_iff (j.HasWords ∧ j.depth < 100) ⟨fun h => ⟨h.1, h.2⟩, fun h => ⟨h.words, h.shallow⟩⟩

variable {depth : Nat}

theorem Json.reads_free {d : Dict Json} (hd : (Json.obj d).Ordered) (hmodest : ∀ e ∈ d, e.2.Modest) :
    Reads (dict value) (depth + 100) (.obj d) d := by
  obtain ⟨hsorted, hordered⟩ := ordered_obj.mp hd
  refine reads_dict hsorted (List.forall₂_same.mpr fun e he => ⟨rfl, ?_⟩)
  exact reads_value (hmodest e he).words (hordered e he) (by have := (hmodest e he).shallow; omega)

theorem Json.yields_free : Yields (dict value) fun d => (Json.obj d).Ordered := fun depth doc d hd =>
  ordered_obj.mpr (yields_dict yields_value depth doc d hd)

theorem Role.reads_toJson (r : Role) : Reads Role.decode depth r.toJson r :=
  reads_choice (by cases r <;> rfl)

theorem Status.reads_toJson (s : Status) : Reads Status.decode depth s.toJson s :=
  reads_choice (by cases s <;> rfl)

/-! ## Conversations -/

/-- The arguments, and every object in them, are listed by ascending key. -/
def ToolCall.Fits (c : ToolCall) : Prop := (Json.obj c.arguments).Ordered

def Message.Fits (m : Message) : Prop := ∀ c ∈ m.toolCalls, c.Fits

theorem ToolCall.reads_toJson {c : ToolCall} (hc : c.Fits) (hmodest : ∀ e ∈ c.arguments, e.2.Modest) :
    Reads ToolCall.decode (depth + 101) c.toJson c := by
  refine reads_record (by simp) (by simp) fun row hrow => ?_
  have hid : row.get "id" string = some c.id := hrow.get (by simp [Dict.get?]) (reads_string _)
  have hname : row.get "name" string = some c.name := hrow.get (by simp [Dict.get?]) (reads_string _)
  have harguments : row.getD "arguments" (dict value) [] = some c.arguments :=
    hrow.getD (by simp [Dict.get?]) (reads_free hc hmodest)
  simp only [hid, hname, harguments, bind, Option.bind, pure]

theorem ToolCall.yields_fits : Yields ToolCall.decode ToolCall.Fits := by
  refine yields_record fun row c hc => ?_
  simp only [bind, Option.bind_eq_some_iff, pure, Option.some.injEq] at hc
  obtain ⟨id, -, name, -, arguments, harguments, rfl⟩ := hc
  exact yields_free.getD (ordered_obj.mpr ⟨List.Pairwise.nil, by simp⟩) harguments

theorem Message.reads_toJson {m : Message} (hm : m.Fits)
    (hmodest : ∀ c ∈ m.toolCalls, ∀ e ∈ c.arguments, e.2.Modest) :
    Reads Message.decode (depth + 103) m.toJson m := by
  obtain ⟨role, content, calls, callId⟩ := m
  refine reads_record ?_ ?_ fun row hrow => ?_
  · cases calls <;> cases callId <;> simp
  · cases calls <;> cases callId <;> simp
  have hrole : row.get "role" Role.decode = some role := hrow.get (by simp [Dict.get?]) (Role.reads_toJson role)
  have hcontent : row.get "content" string = some content := hrow.get (by simp [Dict.get?]) (reads_string _)
  have hcalls : row.getD "tool_calls" (list ToolCall.decode) [] = some calls := by
    cases calls with
    | nil => exact hrow.getD_missing (by cases callId <;> simp [Dict.get?])
    | cons call calls =>
      exact hrow.getD (by cases callId <;> simp [Dict.get?])
        (reads_map fun c hc => ToolCall.reads_toJson (hm c hc) (hmodest c hc))
  have hcallId : row.getD "tool_call_id" (option string) none = some callId := by
    cases callId with
    | none => exact hrow.getD_missing (by cases calls <;> simp [Dict.get?])
    | some id => exact hrow.getD (by simp [Dict.get?]) (reads_some (reads_string id) (by simp))
  simp only [hrole, hcontent, hcalls, hcallId, bind, Option.bind, pure]

theorem Message.yields_fits : Yields Message.decode Message.Fits := by
  refine yields_record fun row m hm => ?_
  simp only [bind, Option.bind_eq_some_iff, pure, Option.some.injEq] at hm
  obtain ⟨role, -, content, -, calls, hcalls, callId, -, rfl⟩ := hm
  exact (yields_list ToolCall.yields_fits).getD (by simp) hcalls

/-! ## Contexts -/

/-- Both numbers are words. -/
structure Limits.Fits (l : Limits) : Prop where
  maxTokens : Word.isSigned64 l.maxTokens = true
  maxToolCalls : Word.isSigned64 l.maxToolCalls = true

/-- What a context can hold: limits in words, a real date, dictionaries. -/
structure Context.Fits (c : Context) : Prop where
  limits : c.limits.Fits
  history : ∀ m ∈ c.history, m.Fits
  createdAt : c.createdAt.isValid = true
  metadata : Dict.Sorted c.metadata

/-- The values in which callers are free: the arguments of the tool calls. -/
def Context.free (c : Context) : List Json :=
  c.history.flatMap fun m => m.toolCalls.flatMap fun call => call.arguments.map Prod.snd

theorem Context.mem_free {c : Context} {m : Message} {call : ToolCall} {e : String × Json} (hm : m ∈ c.history)
    (hcall : call ∈ m.toolCalls) (he : e ∈ call.arguments) : e.2 ∈ c.free :=
  List.mem_flatMap.mpr ⟨m, hm, List.mem_flatMap.mpr ⟨call, hcall, List.mem_map_of_mem he⟩⟩

theorem Limits.reads_toJson {l : Limits} (hl : l.Fits) : Reads Limits.decode (depth + 2) l.toJson l := by
  refine reads_record (by simp) (by simp) fun row hrow => ?_
  have htokens : row.get "max_tokens" int64 = some l.maxTokens :=
    hrow.get (by simp [Dict.get?]) (reads_int64 hl.maxTokens)
  have hcalls : row.get "max_tool_calls" int64 = some l.maxToolCalls :=
    hrow.get (by simp [Dict.get?]) (reads_int64 hl.maxToolCalls)
  have htimeout : row.get "timeout" duration = some l.timeout :=
    hrow.get (by simp [Dict.get?]) (reads_duration l.timeout)
  simp only [htokens, hcalls, htimeout, bind, Option.bind, pure]

theorem Limits.yields_fits : Yields Limits.decode Limits.Fits := by
  refine yields_record fun row l hl => ?_
  simp only [bind, Option.bind_eq_some_iff, pure, Option.some.injEq] at hl
  obtain ⟨tokens, htokens, calls, hcalls, timeout, -, rfl⟩ := hl
  exact ⟨yields_int64.get htokens, yields_int64.get hcalls⟩

theorem reads_names (names : Option (List String)) :
    Reads (option (list string)) (depth + 1) (Json.ofOption Json.strings names) names := by
  cases names with
  | none => exact reads_none
  | some names => exact reads_some (reads_map fun s _ => reads_string s) (by simp [Json.ofOption, Json.strings])

theorem reads_strings {d : Dict String} (hd : d.Sorted) :
    Reads (dict string) (depth + 1) (.obj (d.map fun e => (e.1, .str e.2))) d :=
  reads_dict hd (List.forall₂_map_left_iff.mpr (List.forall₂_same.mpr fun e _ => ⟨rfl, reads_string e.2⟩))

/-- What is written of a context is read back. -/
theorem Context.reads_toJson {c : Context} (hc : c.Fits) (hmodest : ∀ j ∈ c.free, j.Modest) :
    Reads Context.decode (depth + 105) c.toJson c := by
  refine reads_record (by simp) (by simp) fun row hrow => ?_
  have hid : row.get "id" string = some c.id := hrow.get (by simp [Dict.get?]) (reads_string _)
  have hparent : row.get "parent_context_id" string = some c.parentId :=
    hrow.get (by simp [Dict.get?]) (reads_string _)
  have hskill : row.get "skill_name" string = some c.skill := hrow.get (by simp [Dict.get?]) (reads_string _)
  have hallowed : row.getOption "allowed_tools" (list string) = some c.allowedTools :=
    hrow.getOption (by simp [Dict.get?]) (reads_names c.allowedTools)
  have hlimits : row.get "resource_limits" Limits.decode = some c.limits :=
    hrow.get (by simp [Dict.get?]) (Limits.reads_toJson hc.limits)
  have hhistory : row.get "conversation_history" (list Message.decode) = some c.history :=
    hrow.get (by simp [Dict.get?]) (reads_map fun m hm => Message.reads_toJson (hc.history m hm)
      fun call hcall e he => hmodest _ (mem_free hm hcall he))
  have hcreated : row.get "created_at" Timestamp.decode = some c.createdAt :=
    hrow.get (by simp [Dict.get?]) (Timestamp.reads_timestamp hc.createdAt _)
  have hmetadata : row.getD "metadata" (dict string) [] = some c.metadata :=
    hrow.getD (by simp [Dict.get?]) (reads_strings hc.metadata)
  simp only [hid, hparent, hskill, hallowed, hlimits, hhistory, hcreated, hmetadata, bind, Option.bind, pure]

/-- A context that is read, from any text, fits its type. -/
theorem Context.yields_fits : Yields Context.decode Context.Fits := by
  refine yields_record fun row c hc => ?_
  simp only [bind, Option.bind_eq_some_iff, pure, Option.some.injEq] at hc
  obtain ⟨id, -, parentId, -, skill, -, allowed, -, limits, hlimits, history, hhistory, created, hcreated, metadata,
    hmetadata, rfl⟩ := hc
  have hsorted : Yields (dict string) Dict.Sorted := fun depth doc d hd =>
    (yields_dict (P := fun _ => True) (fun _ _ _ _ => trivial) depth doc d hd).1
  exact ⟨Limits.yields_fits.get hlimits, (yields_list Message.yields_fits).get hhistory,
    Timestamp.yields_timestamp.get hcreated, hsorted.getD List.Pairwise.nil hmetadata⟩

/-! ## Records -/

/-- Both numbers are words. -/
structure Step.Fits (s : Step) : Prop where
  number : s.number < Word.count32
  tokens : s.tokens < Word.count64

/-- What a record can hold: counts in words, a real date, dictionaries. -/
structure Record.Fits (r : Record) : Prop where
  tokens : r.tokens < Word.count64
  toolCalls : r.toolCalls < Word.count64
  completedAt : ∀ t ∈ r.completedAt, t.isValid = true
  steps : ∀ s ∈ r.steps, s.Fits
  metadata : (Json.obj r.metadata).Ordered

/-- The values in which callers are free: the metadata. -/
def Record.free (r : Record) : List Json := r.metadata.map Prod.snd

theorem Step.reads_toJson {s : Step} (hs : s.Fits) : Reads Step.decode (depth + 2) s.toJson s := by
  refine reads_record (by simp) (by simp) fun row hrow => ?_
  have hnumber : row.get "step_number" word32 = some s.number :=
    hrow.get (by simp [Dict.get?]) (reads_word32 hs.number)
  have haction : row.get "action" string = some s.action := hrow.get (by simp [Dict.get?]) (reads_string _)
  have hresult : row.get "result" string = some s.result := hrow.get (by simp [Dict.get?]) (reads_string _)
  have htokens : row.get "tokens_used" word64 = some s.tokens :=
    hrow.get (by simp [Dict.get?]) (reads_word64 hs.tokens)
  have hduration : row.get "duration" Decoder.duration = some s.duration :=
    hrow.get (by simp [Dict.get?]) (reads_duration s.duration)
  simp only [hnumber, haction, hresult, htokens, hduration, bind, Option.bind, pure]

theorem Step.yields_fits : Yields Step.decode Step.Fits := by
  refine yields_record fun row s hs => ?_
  simp only [bind, Option.bind_eq_some_iff, pure, Option.some.injEq] at hs
  obtain ⟨number, hnumber, action, -, result, -, tokens, htokens, duration, -, rfl⟩ := hs
  exact ⟨yields_word32.get hnumber, yields_word64.get htokens⟩

theorem reads_ending {t : Option Timestamp} (ht : ∀ t' ∈ t, t'.isValid = true) :
    Reads (option Timestamp.decode) depth (Json.ofOption Timestamp.toJson t) t := by
  cases t with
  | none => exact reads_none
  | some t => exact reads_some (Timestamp.reads_timestamp (ht t rfl) _) (by simp [Json.ofOption, Timestamp.toJson])

/-- What is written of a record is read back. -/
theorem Record.reads_toJson {r : Record} (hr : r.Fits) (hmodest : ∀ j ∈ r.free, j.Modest) :
    Reads Record.decode (depth + 101) r.toJson r := by
  refine reads_record (by simp) (by simp) fun row hrow => ?_
  have hid : row.get "subagent_id" string = some r.id := hrow.get (by simp [Dict.get?]) (reads_string _)
  have hstatus : row.get "status" Status.decode = some r.status :=
    hrow.get (by simp [Dict.get?]) (Status.reads_toJson r.status)
  have houtput : row.get "output" string = some r.output := hrow.get (by simp [Dict.get?]) (reads_string _)
  have herror : row.get "error_message" string = some r.error := hrow.get (by simp [Dict.get?]) (reads_string _)
  have htokens : row.get "tokens_used" word64 = some r.tokens :=
    hrow.get (by simp [Dict.get?]) (reads_word64 hr.tokens)
  have hcalls : row.get "tool_calls_made" word64 = some r.toolCalls :=
    hrow.get (by simp [Dict.get?]) (reads_word64 hr.toolCalls)
  have htime : row.get "execution_time" duration = some r.executionTime :=
    hrow.get (by simp [Dict.get?]) (reads_duration r.executionTime)
  have hcompleted : row.getOption "completed_at" Timestamp.decode = some r.completedAt :=
    hrow.getOption (by simp [Dict.get?]) (reads_ending hr.completedAt)
  have hsteps : row.get "step_results" (list Step.decode) = some r.steps :=
    hrow.get (by simp [Dict.get?]) (reads_map fun s hs => Step.reads_toJson (hr.steps s hs))
  have hmetadata : row.getD "metadata" (dict value) [] = some r.metadata :=
    hrow.getD (by simp [Dict.get?])
      (reads_free hr.metadata fun e he => hmodest _ (List.mem_map_of_mem (f := Prod.snd) he))
  simp only [hid, hstatus, houtput, herror, htokens, hcalls, htime, hcompleted, hsteps, hmetadata, bind, Option.bind,
    pure]

/-- A record that is read, from any text, fits its type. -/
theorem Record.yields_fits : Yields Record.decode Record.Fits := by
  refine yields_record fun row r hr => ?_
  simp only [bind, Option.bind_eq_some_iff, pure, Option.some.injEq] at hr
  obtain ⟨id, -, status, -, output, -, error, -, tokens, htokens, calls, hcalls, time, -, completed, hcompleted, steps,
    hsteps, metadata, hmetadata, rfl⟩ := hr
  exact ⟨yields_word64.get htokens, yields_word64.get hcalls, Timestamp.yields_timestamp.getOption hcompleted,
    (yields_list Step.yields_fits).get hsteps,
    yields_free.getD (ordered_obj.mpr ⟨List.Pairwise.nil, by simp⟩) hmetadata⟩

/-! ## Text -/

theorem ToolCall.isWhole_toJson {c : ToolCall} (hmodest : ∀ e ∈ c.arguments, e.2.Modest) :
    c.toJson.isWhole = true := by
  have harguments : (Json.obj c.arguments).isWhole = true := isWhole_obj.mpr fun e he => (hmodest e he).words.isWhole
  rw [toJson, isWhole_obj]
  simp [harguments]

theorem Message.isWhole_toJson {m : Message} (hmodest : ∀ c ∈ m.toolCalls, ∀ e ∈ c.arguments, e.2.Modest) :
    m.toJson.isWhole = true := by
  have hcalls : (Json.arr (m.toolCalls.map ToolCall.toJson)).isWhole = true :=
    isWhole_arr.mpr (List.forall_mem_map.mpr fun c hc => ToolCall.isWhole_toJson (hmodest c hc))
  have hrole : m.role.toJson.isWhole = true := rfl
  rw [toJson, isWhole_obj]
  simp only [List.forall_mem_append]
  refine ⟨⟨by simp [hrole], ?_⟩, ?_⟩
  · cases m.toolCallId <;> simp
  · split <;> simp [hcalls]

theorem Context.isWhole_toJson {c : Context} (hmodest : ∀ j ∈ c.free, j.Modest) : c.toJson.isWhole = true := by
  have hnames : (Json.ofOption Json.strings c.allowedTools).isWhole = true := by
    cases c.allowedTools with
    | none => rfl
    | some names => exact isWhole_arr.mpr (List.forall_mem_map.mpr fun _ _ => rfl)
  have hhistory : (Json.arr (c.history.map Message.toJson)).isWhole = true :=
    isWhole_arr.mpr (List.forall_mem_map.mpr fun m hm =>
      Message.isWhole_toJson fun call hcall e he => hmodest _ (mem_free hm hcall he))
  have hmetadata : (Json.obj (c.metadata.map fun e => (e.1, .str e.2))).isWhole = true :=
    isWhole_obj.mpr (List.forall_mem_map.mpr fun _ _ => rfl)
  have hlimits : c.limits.toJson.isWhole = true := rfl
  have hcreated : c.createdAt.toJson.isWhole = true := rfl
  rw [toJson, isWhole_obj]
  simp [hnames, hhistory, hmetadata, hlimits, hcreated]

theorem Record.isWhole_toJson {r : Record} (hmodest : ∀ j ∈ r.free, j.Modest) : r.toJson.isWhole = true := by
  have hcompleted : (Json.ofOption Timestamp.toJson r.completedAt).isWhole = true := by
    cases r.completedAt <;> rfl
  have hmetadata : (Json.obj r.metadata).isWhole = true :=
    isWhole_obj.mpr fun e he => (hmodest _ (List.mem_map_of_mem he)).words.isWhole
  have hsteps : (Json.arr (r.steps.map Step.toJson)).isWhole = true :=
    isWhole_arr.mpr (List.forall_mem_map.mpr fun _ _ => rfl)
  have htime : (Json.ofDuration r.executionTime).isWhole = true := rfl
  have hstatus : r.status.toJson.isWhole = true := rfl
  rw [toJson, isWhole_obj]
  simp [hcompleted, hmetadata, hsteps, htime, hstatus]

/-- Contexts and records are read back as they were written, and what is read from any text is read back from
what is then written of it: every list of allowed tools, an absent one among them, and every message, with no
tool calls or no call id where none is written. -/
theorem roundTrip :
    (∀ c : Context, c.Fits → (∀ j ∈ c.free, j.Modest) → Context.decode.Returns c.toJson c) ∧
    (∀ r : Record, r.Fits → (∀ j ∈ r.free, j.Modest) → Record.decode.Returns r.toJson r) ∧
    (∀ (text : String) (c : Context), Context.decode.run text = some c → (∀ j ∈ c.free, j.Modest) →
      Context.decode.Returns c.toJson c) ∧
    (∀ (text : String) (r : Record), Record.decode.run text = some r → (∀ j ∈ r.free, j.Modest) →
      Record.decode.Returns r.toJson r) ∧
    (∀ c : Context, (c.toJson.get? "allowed_tools" = some .null ↔ c.allowedTools = none) ∧
      (c.toJson.get? "allowed_tools" = some (.arr []) ↔ c.allowedTools = some [])) ∧
    ∀ m : Message, (m.toJson.get? "tool_calls" = none ↔ m.toolCalls = []) ∧
      (m.toJson.get? "tool_call_id" = none ↔ m.toolCallId = none) := by
  have hcontext (c : Context) (hc : c.Fits) (hmodest : ∀ j ∈ c.free, j.Modest) :
      Context.decode.Returns c.toJson c := by
    have hreads : Reads Context.decode (22 + 105) c.toJson c := Context.reads_toJson hc hmodest
    exact hreads.returns (Context.isWhole_toJson hmodest)
  have hrecord (r : Record) (hr : r.Fits) (hmodest : ∀ j ∈ r.free, j.Modest) :
      Record.decode.Returns r.toJson r := by
    have hreads : Reads Record.decode (26 + 101) r.toJson r := Record.reads_toJson hr hmodest
    exact hreads.returns (Record.isWhole_toJson hmodest)
  refine ⟨hcontext, hrecord, fun text c hc => hcontext c (Context.yields_fits.run hc),
    fun text r hr => hrecord r (Record.yields_fits.run hr), fun c => ?_, fun m => ?_⟩
  · cases h : c.allowedTools <;>
      simp [Json.get?, Json.fields, Context.toJson, Dict.get?, h, Json.ofOption, Json.strings]
  · obtain ⟨role, content, calls, callId⟩ := m
    cases calls <;> cases callId <;> simp [Json.get?, Json.fields, Message.toJson, Dict.get?]

/-- A context with a tool call that has arguments within arguments, and with the call's output. -/
def Context.answered : Context where
  id := "sub-1"
  parentId := "über"
  skill := "review"
  allowedTools := some []
  limits := ⟨-1, 9, ⟨1500000000, by decide⟩⟩
  history := [
    .assistant "" [⟨"c1", "read", [("options", .obj [("deep", .arr [.nat 1, .null]), ("wide", .bool true)]),
      ("path", .str "a")]⟩],
    .toolOutput "c1" "out"]
  createdAt := ⟨2024, 2, 29, 23, 59, 59, 5000000⟩
  metadata := [("k", "v")]

/-- A record with the largest count there is and with `-0` in its metadata. -/
def Record.finished : Record where
  id := "sub-1"
  status := .complete
  output := "done"
  error := ""
  tokens := Word.count64 - 1
  toolCalls := 1
  executionTime := ⟨1500000000, by decide⟩
  completedAt := some ⟨2024, 3, 1, 0, 30, 0, 0⟩
  steps := [⟨1, "end_turn", "done", 7, Duration.zero⟩]
  metadata := [("conversation_len", .nat 3), ("drift", .num (.real (Binary64.zero true)))]

/-- A context in another form than it is written in: limits in an array, a field that is not known, a role with
its content, more nanoseconds than a second has, and an offset into the next month. -/
def Context.lenient : Json :=
  .obj [("id", "a"), ("parent_context_id", "p"), ("skill_name", "s"), ("unknown", .arr [.nat 1]),
    ("resource_limits", .arr [.int 7, .int 0, .obj [("nanos", .nat 1500000000), ("secs", .nat 1)]]),
    ("conversation_history", .arr [.obj [("role", .obj [("user", .null)]), ("content", "h")]]),
    ("created_at", "2024-02-29 23:30:00 -01:00")]

/-- A record in an array, with two values under one key of its metadata. -/
def Record.lenient : Json :=
  .arr ["a", "running", "", "", .nat 0, .nat 0, .obj [("secs", .nat 0), ("nanos", .nat 0)], .null, .arr [],
    .obj [("k", .nat 1), ("j", .null), ("k", .nat 2)]]

theorem roundTrip_answered :
    (Context.answered.Fits ∧ (∀ j ∈ Context.answered.free, j.Modest) ∧
      Context.decode.run Context.answered.toJson.compact = some Context.answered) ∧
    (Record.finished.Fits ∧ (∀ j ∈ Record.finished.free, j.Modest) ∧
      Record.decode.run Record.finished.toJson.compact = some Record.finished) ∧
    (∃ c : Context, Context.decode.run Context.lenient.compact = some c ∧ c.limits.timeout.nanos = 2500000000 ∧
      (∀ j ∈ c.free, j.Modest) ∧ Context.decode.Returns c.toJson c) ∧
    ∃ r : Record, Record.decode.run Record.lenient.compact = some r ∧ r.metadata.map Prod.fst = ["j", "k"] ∧
      (∀ j ∈ r.free, j.Modest) ∧ Record.decode.Returns r.toJson r := by
  have hhistory : ∀ m ∈ Context.answered.history, ∀ c ∈ m.toolCalls, (Json.obj c.arguments).Ordered := by
    decide +kernel
  have hcontext : Context.answered.Fits := ⟨⟨rfl, rfl⟩, hhistory, rfl, by decide +kernel⟩
  have hfree : ∀ j ∈ Context.answered.free, j.Modest := by decide +kernel
  have hcompleted : ∀ t ∈ Record.finished.completedAt, t.isValid = true := by
    rintro _ ⟨⟩
    rfl
  have hsteps : ∀ s ∈ Record.finished.steps, s.Fits := List.forall_mem_singleton.mpr ⟨by decide, by decide⟩
  have hrecord : Record.finished.Fits := ⟨by decide, by decide, hcompleted, hsteps, by decide +kernel⟩
  have hmetadata : ∀ j ∈ Record.finished.free, j.Modest := by decide +kernel
  have hlenient : Context.decode.run Context.lenient.compact = some
      ⟨"a", "p", "s", none, ⟨7, 0, ⟨2500000000, by decide⟩⟩, [.user "h"], ⟨2024, 3, 1, 0, 30, 0, 0⟩, []⟩ := by
    rw [Decoder.run, parse?_compact _ rfl]
    rfl
  have hlist : Record.decode.run Record.lenient.compact = some
      ⟨"a", .running, "", "", 0, 0, ⟨0, by decide⟩, none, [], [("j", .null), ("k", .nat 2)]⟩ := by
    rw [Decoder.run, parse?_compact _ rfl]
    rfl
  exact ⟨⟨hcontext, hfree, roundTrip.1 _ hcontext hfree _ (Shuffled.refl _)⟩,
    ⟨hrecord, hmetadata, roundTrip.2.1 _ hrecord hmetadata _ (Shuffled.refl _)⟩,
    ⟨_, hlenient, rfl, by decide +kernel, roundTrip.2.2.1 _ _ hlenient (by decide +kernel)⟩,
    ⟨_, hlist, rfl, by decide +kernel, roundTrip.2.2.2.1 _ _ hlist (by decide +kernel)⟩⟩

end Overseer
