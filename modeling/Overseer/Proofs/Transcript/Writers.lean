import Overseer.Proofs.Transcript.Reading

/-!
# Several transcripts at once

Transcripts are opened at any time and for any workspaces, several of them perhaps for one file, and are
written to in any order. Each file grows by the lines of what is logged to it and by nothing else, and its
new lines are read back as the events that were logged.

* `contentAt_next`: what one act does to the content of every file.
* `next_result`: a result is logged line by line.
* `lossless`: what any acts do, and what a reader gets.
-/
namespace Overseer

/-- Files, and the transcripts that are open. -/
structure Transcripts where
  files : FileSystem
  opened : List Transcript
  file_ne_nil : ∀ t ∈ opened, t.file ≠ []

namespace Transcripts

open Transcript

/-- What is logged at a time. -/
inductive Note where
  | event (e : Event)
  | start (c : Context)
  | result (r : Record)

/-- The events of a note: a result has one for each step and one for its end. -/
def Note.events : Note → List Event
  | .event e => [e]
  | .start c =>
    [.runStart c.id c.parentId c.skill c.allowedTools c.limits.maxTokens c.limits.maxToolCalls
      c.limits.timeout.millis c.history.length]
  | .result r =>
    r.steps.map (fun s => .step s.number s.action s.result s.tokens s.duration.millis) ++
      [.runEnd r.status r.tokens r.toolCalls r.executionTime.millis r.error]

/-- Logs a note. -/
def Note.write (t : Transcript) (fs : FileSystem) (time : Timestamp) : Note → FileSystem
  | .event e => t.log fs time e
  | .start c => t.log fs time (Event.ofContext c)
  | .result r => t.logAll fs time (Event.ofRecord r)

/-- What is done with transcripts: one more is opened, or the one of a number is written to. -/
inductive Act where
  | opening (workspace : Path) (id : String)
  | writing (n : Nat) (time : Timestamp) (note : Note)

/-- The transcripts after an act. Nothing is opened if that fails. -/
def next (s : Transcripts) : Act → Transcripts
  | .opening workspace id =>
    match h : create s.files workspace id with
    | (files, .error _) => { s with files }
    | (files, .ok t) =>
      { files, opened := s.opened ++ [t]
        file_ne_nil := fun t' ht' => by
          rcases List.mem_append.mp ht' with ht' | ht'
          · exact s.file_ne_nil t' ht'
          · rw [List.mem_singleton.mp ht']; exact Transcript.file_ne_nil h }
  | .writing n time note =>
    match s.opened[n]? with
    | none => s
    | some t => { s with files := note.write t s.files time }

/-- The transcripts after some acts, one after the other. -/
def run (s : Transcripts) (acts : List Act) : Transcripts := acts.foldl next s

/-- The entries that an act logs to a file. -/
def entriesAt (s : Transcripts) (l : Location) : Act → Entries
  | .opening _ _ => []
  | .writing n time note =>
    match s.opened[n]? with
    | none => []
    | some t => if l = t.file then note.events.map (time, ·) else []

/-- The entries that some acts log to a file. -/
def loggedAt (s : Transcripts) (l : Location) : List Act → Entries
  | [] => []
  | a :: acts => s.entriesAt l a ++ (s.next a).loggedAt l acts

variable {s : Transcripts} {l : Location}

theorem contentAt_write {t : Transcript} (ht : t.file ≠ []) (fs : FileSystem) (time : Timestamp)
    (note : Note) (l : Location) :
    (note.write t fs time).contentAt l =
      if l = t.file then fs.contentAt l ++ (text (note.events.map (time, ·))).toUTF8 else fs.contentAt l := by
  cases note with
  | event e => exact contentAt_log ht fs time e l
  | start c => exact contentAt_log ht fs time (Event.ofContext c) l
  | result r => exact contentAt_logAll ht fs time (Event.ofRecord r) l

/-- An act adds to each file the lines of what it logs to it. -/
theorem contentAt_next (s : Transcripts) (l : Location) (a : Act) :
    (s.next a).files.contentAt l = s.files.contentAt l ++ (text (s.entriesAt l a)).toUTF8 := by
  have hnone : s.files.contentAt l ++ (text []).toUTF8 = s.files.contentAt l := by
    rw [text, toUTF8_empty, ByteArray.append_empty]
  cases a with
  | opening workspace id =>
    rw [entriesAt, hnone, ← contentAt_create s.files workspace id l, next]
    split
    · rename_i h; exact (congrArg (fun x => x.1.contentAt l) h).symm
    · rename_i h; exact (congrArg (fun x => x.1.contentAt l) h).symm
  | writing n time note =>
    rw [next, entriesAt]
    cases ht : s.opened[n]? with
    | none => exact hnone.symm
    | some t =>
      dsimp only
      rw [contentAt_write (s.file_ne_nil t (List.mem_of_getElem? ht))]
      split
      · rfl
      · exact hnone.symm

theorem contentAt_run (s : Transcripts) (l : Location) (acts : List Act) :
    (s.run acts).files.contentAt l = s.files.contentAt l ++ (text (s.loggedAt l acts)).toUTF8 := by
  induction acts generalizing s with
  | nil =>
    rw [loggedAt, text, toUTF8_empty, ByteArray.append_empty]
    rfl
  | cons a acts ih =>
    have hrun : s.run (a :: acts) = (s.next a).run acts := rfl
    rw [hrun, ih, contentAt_next, loggedAt, toUTF8_text_append, ByteArray.append_assoc]

/-- A result is written line by line: writing it is writing its events, one act for each. -/
theorem next_result (s : Transcripts) (n : Nat) (time : Timestamp) (r : Record) :
    s.next (.writing n time (.result r)) =
      s.run ((Note.result r).events.map fun e => .writing n time (.event e)) := by
  have hlines (s : Transcripts) (es : List Event) :
      s.run (es.map fun e => .writing n time (.event e)) =
        match s.opened[n]? with
        | none => s
        | some t => { s with files := t.logAll s.files time es } := by
    induction es generalizing s with
    | nil => cases s.opened[n]? <;> rfl
    | cons e es ih =>
      have hrun : s.run ((e :: es).map fun e => .writing n time (.event e)) =
          (s.next (.writing n time (.event e))).run (es.map fun e => .writing n time (.event e)) := rfl
      rw [hrun, ih, next]
      cases ht : s.opened[n]? with
      | none => simp only [ht]
      | some t => simp only [ht]; rfl
  rw [hlines]
  rfl

/-- Durations are logged in whole milliseconds, rounded down, which fit 128 bits. -/
theorem millis_exact (d : Duration) :
    d.millis < 2 ^ 128 ∧ d.millis * 1000000 ≤ d.nanos ∧ d.nanos < (d.millis + 1) * 1000000 := by
  have hlt : d.nanos < 18446744073709551616 * 1000000000 := d.nanos_lt
  unfold Duration.millis
  omega

/-- Whatever is opened and written, each file ends up with its old content and behind it one line for each
entry that was logged to it, in order; no line has a line break inside; and the new lines are read back as
the events that were logged. A result is no exception: it is so many acts as it has lines, and the same can
be said after each. -/
theorem lossless (s : Transcripts) (acts : List Act) (l : Location) :
    (s.run acts).files.contentAt l = s.files.contentAt l ++ (text (s.loggedAt l acts)).toUTF8 ∧
      lines (text (s.loggedAt l acts)).toList =
        (s.loggedAt l acts).map (fun x => (x.2.toJson x.1).chars) ∧
      Transcript.read? (text (s.loggedAt l acts)) = some ((s.loggedAt l acts).map Prod.snd) ∧
      (∀ n time r, s.next (.writing n time (.result r)) =
        s.run ((Note.result r).events.map fun e => .writing n time (.event e))) ∧
      ∀ d : Duration, d.millis < 2 ^ 128 ∧ d.millis * 1000000 ≤ d.nanos ∧
        d.nanos < (d.millis + 1) * 1000000 :=
  ⟨s.contentAt_run l acts, lines_text _, read?_text _, s.next_result, millis_exact⟩

end Transcripts

end Overseer
