import Overseer.Proofs.Json.Reading
import Overseer.Proofs.Transcript.Lines

/-!
# Transcripts can be read back

A reader of transcripts takes each line for one JSON object and looks its fields up by name. It reads whole
numbers of any size, passes over the timestamp, takes a list of tools that is not there for none and an
error that is not there for the empty one.

* `Event.read?_document`: the reader gets back the event that was written.
* `lines_text`: each event is one line.
* `read?_text`: the reader gets back all events, in order.
-/
namespace Overseer

namespace Json.Document

/-- The field of an object, the first one of the name. -/
def field? (key : String) : Document → Option Document
  | .obj fields => fields.lookup (some key)
  | _ => none

/-- What a reader takes the field of an object for. -/
def at? {α : Type} (reader : Document → Option α) (key : String) (d : Document) : Option α := do
  reader (← d.field? key)

def text? : Document → Option String
  | .str s => s
  | _ => none

def texts? : Document → Option (List String)
  | .arr items => items.mapM text?
  | _ => none

/-- A number without fraction and exponent, however large. -/
def whole? : Document → Option Int
  | .num ⟨negative, digits, none, none⟩ =>
    some (if negative then -(Number.ofDigits digits : Int) else Number.ofDigits digits)
  | _ => none

/-- A whole number that is not negative. -/
def count? (d : Document) : Option Nat := do
  let n ← d.whole?
  if 0 ≤ n then some n.toNat else none

end Json.Document

namespace Json

open Document

theorem whole?_int (n : Int) : whole? (document (.int n)) = some n := by
  have hdoc : document (.int n) = .num (.ofInt n) := rfl
  rw [hdoc, Literal.ofInt, whole?, ofDigits_decimals]
  by_cases hn : n < 0
  · simp only [hn, decide_true, if_true, Option.some.injEq]; omega
  · simp only [hn, decide_false, Bool.false_eq_true, if_false, Option.some.injEq]; omega

theorem count?_nat (n : Nat) : count? (document (.nat n)) = some n := by
  have h : whole? (document (.nat n)) = some (n : Int) := whole?_int n
  simp [count?, h]

theorem texts?_strings (names : List String) : texts? (document (strings names)) = some names := by
  rw [strings, document, texts?]
  induction names with
  | nil => rfl
  | cons s names ih => simp [itemDocuments, document, text?, ih]

theorem areWhole_strings (names : List String) : areWhole (names.map .str) = true := by
  induction names with
  | nil => rfl
  | cons s names ih => rw [List.map_cons, areWhole, ih]; rfl

end Json

open Json.Document

namespace Event

def readStart? (d : Json.Document) : Option Event := do
  let tools ← match d.field? "allowed_tools" with
    | none => some none
    | some t => t.texts?.map some
  return .runStart (← d.at? text? "subagent_id") (← d.at? text? "parent_context_id")
    (← d.at? text? "skill_name") tools (← d.at? whole? "max_tokens") (← d.at? whole? "max_tool_calls")
    (← d.at? count? "timeout_ms") (← d.at? count? "history_len")

def readStep? (d : Json.Document) : Option Event := do
  return .step (← d.at? count? "step_number") (← d.at? text? "action") (← d.at? text? "result")
    (← d.at? count? "tokens_used") (← d.at? count? "duration_ms")

def readStatus? (d : Json.Document) : Option Event := do
  return .statusChange (← d.at? (Status.decode 0) "status")

def readEnd? (d : Json.Document) : Option Event := do
  let error ← match d.field? "error_message" with
    | none => some ""
    | some t => t.text?
  return .runEnd (← d.at? (Status.decode 0) "status") (← d.at? count? "tokens_used")
    (← d.at? count? "tool_calls_made") (← d.at? count? "execution_ms") error

/-- Reads an event. -/
def read? (d : Json.Document) : Option Event := do
  let kind ← d.at? text? "event_type"
  if kind = "run_start" then readStart? d
  else if kind = "step" then readStep? d
  else if kind = "status_change" then readStatus? d
  else if kind = "run_end" then readEnd? d
  else none

theorem isWhole_toJson (time : Timestamp) (e : Event) : (e.toJson time).isWhole = true := by
  cases e with
  | runStart id parentId skill tools maxTokens maxToolCalls timeout history =>
    cases tools with
    | none => rfl
    | some names =>
      simp [toJson, Json.isWhole, Json.haveWhole, Json.strings, Json.areWhole_strings, Json.int, Json.nat]
  | step => rfl
  | statusChange => rfl
  | runEnd status tokens calls time error =>
    simp only [toJson]
    split <;> rfl

theorem decode_status (s : Status) : Status.decode 0 (s.toJson).document = some s := by
  cases s <;> rfl

theorem readStart?_document (time : Timestamp) (id parentId skill : String) (tools : Option (List String))
    (maxTokens maxToolCalls : Int) (timeout history : Nat) :
    readStart? (toJson time
      (.runStart id parentId skill tools maxTokens maxToolCalls timeout history)).document =
        some (.runStart id parentId skill tools maxTokens maxToolCalls timeout history) := by
  generalize hd : (toJson time
    (.runStart id parentId skill tools maxTokens maxToolCalls timeout history)).document = d
  have hid : d.at? text? "subagent_id" = some id := by rw [← hd]; cases tools <;> rfl
  have hparent : d.at? text? "parent_context_id" = some parentId := by rw [← hd]; cases tools <;> rfl
  have hskill : d.at? text? "skill_name" = some skill := by rw [← hd]; cases tools <;> rfl
  have htokens : d.at? whole? "max_tokens" = some maxTokens := by
    rw [← hd]; cases tools <;> exact Json.whole?_int maxTokens
  have hcalls : d.at? whole? "max_tool_calls" = some maxToolCalls := by
    rw [← hd]; cases tools <;> exact Json.whole?_int maxToolCalls
  have htimeout : d.at? count? "timeout_ms" = some timeout := by
    rw [← hd]; cases tools <;> exact Json.count?_nat timeout
  have hhistory : d.at? count? "history_len" = some history := by
    rw [← hd]; cases tools <;> exact Json.count?_nat history
  have htools : d.field? "allowed_tools" = tools.map fun names => (Json.strings names).document := by
    rw [← hd]; cases tools <;> rfl
  cases tools with
  | none => simp [readStart?, htools, hid, hparent, hskill, htokens, hcalls, htimeout, hhistory]
  | some names =>
    simp [readStart?, htools, Json.texts?_strings, hid, hparent, hskill, htokens, hcalls, htimeout, hhistory]

theorem readStep?_document (time : Timestamp) (number : Nat) (action result : String)
    (tokens duration : Nat) :
    readStep? (toJson time (.step number action result tokens duration)).document =
      some (.step number action result tokens duration) := by
  generalize hd : (toJson time (.step number action result tokens duration)).document = d
  have hnumber : d.at? count? "step_number" = some number := by rw [← hd]; exact Json.count?_nat number
  have haction : d.at? text? "action" = some action := by rw [← hd]; rfl
  have hresult : d.at? text? "result" = some result := by rw [← hd]; rfl
  have htokens : d.at? count? "tokens_used" = some tokens := by rw [← hd]; exact Json.count?_nat tokens
  have hduration : d.at? count? "duration_ms" = some duration := by rw [← hd]; exact Json.count?_nat duration
  simp [readStep?, hnumber, haction, hresult, htokens, hduration]

theorem readEnd?_document (time : Timestamp) (status : Status) (tokens calls millis : Nat) (error : String) :
    readEnd? (toJson time (.runEnd status tokens calls millis error)).document =
      some (.runEnd status tokens calls millis error) := by
  generalize hd : (toJson time (.runEnd status tokens calls millis error)).document = d
  have hstatus : d.at? (Status.decode 0) "status" = some status := by
    rw [← hd, toJson]; split <;> exact decode_status status
  have htokens : d.at? count? "tokens_used" = some tokens := by
    rw [← hd, toJson]; split <;> exact Json.count?_nat tokens
  have hcalls : d.at? count? "tool_calls_made" = some calls := by
    rw [← hd, toJson]; split <;> exact Json.count?_nat calls
  have hmillis : d.at? count? "execution_ms" = some millis := by
    rw [← hd, toJson]; split <;> exact Json.count?_nat millis
  have herror : d.field? "error_message" = if error.isEmpty then none else some (.str (some error)) := by
    rw [← hd, toJson]; split <;> rfl
  by_cases hempty : error.isEmpty = true
  · have hnone : error = "" := String.isEmpty_iff.mp hempty
    simp [readEnd?, herror, hnone, hstatus, htokens, hcalls, hmillis]
  · simp [readEnd?, herror, hempty, text?, hstatus, htokens, hcalls, hmillis]

/-- The reader gets back the event that was written. -/
theorem read?_document (time : Timestamp) (e : Event) : read? (e.toJson time).document = some e := by
  cases e with
  | runStart id parentId skill tools maxTokens maxToolCalls timeout history =>
    rw [read?, readStart?_document]
    cases tools <;> rfl
  | step number action result tokens duration =>
    rw [read?, readStep?_document]
    rfl
  | statusChange status => cases status <;> rfl
  | runEnd status tokens calls time error =>
    rw [read?, readEnd?_document]
    simp only [toJson]
    split <;> rfl

end Event

namespace Transcript

variable {before after : ByteArray} {es es' : List Event}

/-! ## Lines -/

/-- The pieces between line breaks, without an empty one at the end. -/
def lines : List Char → List (List Char)
  | [] => []
  | c :: rest =>
    if c = '\n' then [] :: lines rest
    else
      match lines rest with
      | [] => [[c]]
      | l :: ls => (c :: l) :: ls

theorem lines_append {l : List Char} (h : '\n' ∉ l) (rest : List Char) :
    lines (l ++ '\n' :: rest) = l :: lines rest := by
  induction l with
  | nil => rfl
  | cons c l ih =>
    rw [List.mem_cons, not_or] at h
    rw [List.cons_append, lines, if_neg (Ne.symm h.1), ih h.2]

theorem toList_text (time : Timestamp) (e : Event) (rest : Entries) :
    (text ((time, e) :: rest)).toList = (e.toJson time).chars ++ '\n' :: (text rest).toList := by
  simp [text, Event.line, Json.compact]

/-- Each entry is one line. -/
theorem lines_text (entries : Entries) :
    lines (text entries).toList = entries.map fun x => (x.2.toJson x.1).chars := by
  induction entries with
  | nil => rfl
  | cons x entries ih =>
    obtain ⟨time, e⟩ := x
    rw [toList_text, lines_append (Json.newline_not_mem_chars _ (e.isWhole_toJson time)), ih, List.map_cons]

/-- Reads the events of a transcript, one from each line. -/
def read? (s : String) : Option (List Event) :=
  (lines s.toList).mapM fun l => do Event.read? (← Json.Document.ofChars? l)

/-- The events are read back in order. -/
theorem read?_text (entries : Entries) : read? (text entries) = some (entries.map Prod.snd) := by
  rw [read?, lines_text]
  induction entries with
  | nil => rfl
  | cons x entries ih =>
    obtain ⟨time, e⟩ := x
    rw [List.map_cons, List.mapM_cons, ih]
    simp [Json.ofChars?_chars _ (e.isWhole_toJson time), Event.read?_document]

/-- What was written between two contents is told by the contents. -/
theorem Wrote.unique (h : Wrote before after es) (h' : Wrote before after es') : es = es' := by
  obtain ⟨entries, rfl, rfl⟩ := h
  obtain ⟨entries', rfl, hsame⟩ := h'
  have htext : text entries = text entries' :=
    String.toByteArray_inj.mp ((ByteArray.append_right_inj before).mp hsame)
  have hread := read?_text entries
  rw [htext, read?_text entries'] at hread
  exact (Option.some.inj hread).symm

end Transcript

end Overseer
