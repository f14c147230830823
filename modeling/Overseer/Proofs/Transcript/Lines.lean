import Overseer.Proofs.FileSystem.Content
import Overseer.Transcript

/-!
# What logging does to files

Opening a transcript changes the content of no file, and logging adds lines to the end of one.

* `create_spec`, `contentAt_create`: opening a transcript.
* `contentAt_log`, `contentAt_logAll`: logging to one.
* `Wrote`: a content is another with one line for each of some events behind it.
-/
namespace Overseer

namespace Transcript

open FileSystem

variable {fs fs' : FileSystem} {t : Transcript} {before after later : ByteArray} {es es' : List Event}

/-- Events, each with the time at which it was logged. -/
abbrev Entries := List (Timestamp × Event)

/-- The lines of some entries. -/
def text : Entries → String
  | [] => ""
  | (time, e) :: rest => e.line time ++ text rest

theorem text_append (a b : Entries) : text (a ++ b) = text a ++ text b := by
  induction a with
  | nil => simp [text]
  | cons x a ih => rw [List.cons_append, text, text, ih, String.append_assoc]

theorem toUTF8_append (s s' : String) : (s ++ s').toUTF8 = s.toUTF8 ++ s'.toUTF8 := String.toByteArray_append

theorem toUTF8_empty : "".toUTF8 = .empty := String.toByteArray_empty

theorem toUTF8_text_append (a b : Entries) : (text (a ++ b)).toUTF8 = (text a).toUTF8 ++ (text b).toUTF8 := by
  rw [text_append, toUTF8_append]

/-! ## Opening -/

theorem contentAt_create (fs : FileSystem) (workspace : Path) (id : String) (l : Location) :
    (create fs workspace id).1.contentAt l = fs.contentAt l := by
  unfold create
  split
  · rfl
  rename_i dir _
  have hdirs := contentAt_createDirAll fs dir l
  split
  · rename_i heq; rw [heq] at hdirs; exact hdirs
  · rename_i fs₁ heq
    rw [heq] at hdirs
    dsimp only
    split
    · exact hdirs
    · rename_i file fs₂ hopen
      obtain ⟨-, hfile, rfl⟩ := openForAppend_spec hopen
      exact (contentAt_put_self hfile l).trans hdirs

/-- The name of the directory of transcripts. -/
def logs : Name := Path.ofString ".delegate-logs"

/-- The name of a transcript. -/
def fileName (id : String) : Name := Path.ofString ("subagent-" ++ id ++ ".jsonl")

/-- What opening does: it makes the directory of transcripts and opens a file in there. -/
theorem create_spec {workspace : Path} {id : String} (h : create fs workspace id = (fs', .ok t)) :
    ∃ parent, workspace.parent? = some parent ∧
      (fs.createDirAll (parent.join logs)).1.openForAppend ((parent.join logs).join (fileName id)) =
        .ok (t.file, fs') := by
  unfold create at h
  split at h
  · cases h
  rename_i dir hdir
  unfold directory at hdir
  split at hdir
  · cases hdir
  rename_i parent hparent
  cases hdir
  split at h
  · cases h
  rename_i fs₁ heq
  have hdirs : fs.createDirAll (parent.join logs) = (fs₁, .ok ()) := heq
  dsimp only at h
  split at h
  · cases h
  rename_i hopen
  cases h
  exact ⟨parent, hparent, by rw [hdirs]; exact hopen⟩

theorem file_ne_nil {workspace : Path} {id : String} (h : create fs workspace id = (fs', .ok t)) :
    t.file ≠ [] := by
  obtain ⟨parent, -, hopen⟩ := create_spec h
  exact (openForAppend_spec hopen).2.1

/-! ## Logging -/

theorem contentAt_log (ht : t.file ≠ []) (fs : FileSystem) (time : Timestamp) (e : Event) (l : Location) :
    (t.log fs time e).contentAt l =
      if l = t.file then fs.contentAt l ++ (text [(time, e)]).toUTF8 else fs.contentAt l := by
  have htext : text [(time, e)] = e.line time := by simp [text]
  rw [htext, log, contentAt_append fs l _ ht]
  split
  · rename_i h; rw [h]
  · rfl

theorem contentAt_logAll (ht : t.file ≠ []) (fs : FileSystem) (time : Timestamp) (es : List Event)
    (l : Location) :
    (t.logAll fs time es).contentAt l =
      if l = t.file then fs.contentAt l ++ (text (es.map (time, ·))).toUTF8 else fs.contentAt l := by
  induction es generalizing fs with
  | nil =>
    rw [List.map_nil, text, toUTF8_empty, ByteArray.append_empty, ite_self]
    rfl
  | cons e es ih =>
    have hstep : t.logAll fs time (e :: es) = t.logAll (t.log fs time e) time es := rfl
    rw [hstep, ih, contentAt_log ht]
    by_cases h : l = t.file
    · rw [if_pos h, if_pos h, if_pos h, ByteArray.append_assoc, ← toUTF8_text_append]
      rfl
    · rw [if_neg h, if_neg h, if_neg h]

/-- The second content is the first with one line for each of the events behind it, in order. -/
def Wrote (before after : ByteArray) (es : List Event) : Prop :=
  ∃ entries : Entries, entries.map Prod.snd = es ∧ after = before ++ (text entries).toUTF8

theorem Wrote.refl (before : ByteArray) : Wrote before before [] :=
  ⟨[], rfl, by rw [text, toUTF8_empty, ByteArray.append_empty]⟩

theorem Wrote.trans (h : Wrote before after es) (h' : Wrote after later es') :
    Wrote before later (es ++ es') := by
  obtain ⟨entries, rfl, rfl⟩ := h
  obtain ⟨entries', rfl, rfl⟩ := h'
  exact ⟨entries ++ entries', List.map_append, by rw [toUTF8_text_append, ByteArray.append_assoc]⟩

theorem wrote_logAll (ht : t.file ≠ []) (fs : FileSystem) (time : Timestamp) (es : List Event) :
    Wrote (fs.contentAt t.file) ((t.logAll fs time es).contentAt t.file) es := by
  refine ⟨es.map (time, ·), by simp [Function.comp_def], ?_⟩
  rw [contentAt_logAll ht, if_pos rfl]

end Transcript

end Overseer
