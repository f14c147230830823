import Mathlib
import Overseer.Proofs.FileSystem.Straight
import Overseer.Proofs.Text.Encoding
import Overseer.Proofs.Transcript.Lines
import Overseer.Proofs.Workspace.Listing
import Overseer.Uuid

/-!
# Transcripts are out of the tools' reach

Tools write below the root of their workspace, and a transcript stands beside it: in the directory
`.delegate-logs` of the root's parent. Nothing keeps the workspace from being that directory itself, and
then its transcripts are files like any others (`exposed_in_logs`); under any other name it cannot reach
them.

* `file_of_create`: where the transcript of a sub-agent stands.
* `OutOfReach`: what logging and all tools keep.
* `untouched_by_tools`: a transcript holds what was logged to it and nothing else, and no listing shows where
  it stands.
-/
namespace Overseer

/-! ## Names -/

/-- Only the encoding of a slash has the byte of a slash in it. -/
theorem Utf8.eq_slash_of_mem {c : Char} (h : Path.slash ∈ String.utf8EncodeChar c) : c = '/' := by
  have hbyte (n : Nat) (h : Path.slash = UInt8.ofNat n) : n % 256 = 47 := by
    have hnat := congrArg UInt8.toNat h
    simpa [Path.slash] using hnat.symm
  have hv : c.val.toNat = 47 := by
    simp only [String.utf8EncodeChar] at h
    split at h
    · have := hbyte _ (List.mem_singleton.mp h)
      omega
    -- all other bytes are 128 at least
    exfalso
    split at h
    · simp only [List.mem_cons, List.not_mem_nil, or_false] at h
      rcases h with h | h <;> have := hbyte _ h <;> omega
    split at h
    · simp only [List.mem_cons, List.not_mem_nil, or_false] at h
      rcases h with h | h | h <;> have := hbyte _ h <;> omega
    · simp only [List.mem_cons, List.not_mem_nil, or_false] at h
      rcases h with h | h | h | h <;> have := hbyte _ h <;> omega
  exact Char.ext (UInt32.toNat_inj.mp hv)

theorem Utf8.slash_not_mem_bytes {s : String} (h : '/' ∉ s.toList) : Path.slash ∉ bytes s := by
  rw [bytes_eq_flatMap, List.mem_flatMap]
  rintro ⟨c, hc, hmem⟩
  exact h (eq_slash_of_mem hmem ▸ hc)

namespace Uuid

theorem hexDigit_ne_slash {n : Nat} (h : n < 16) : Json.hexDigit n ≠ '/' := by
  revert h n
  decide

theorem slash_not_mem_digits (count n : Nat) : '/' ∉ digits count n := by
  induction count generalizing n with
  | zero => simp [digits]
  | succ count ih =>
    simp only [digits, List.mem_append, List.mem_singleton, not_or]
    exact ⟨ih _, (hexDigit_ne_slash (Nat.mod_lt _ (by decide))).symm⟩

theorem slash_not_mem_ofRandom (n : Nat) : '/' ∉ (ofRandom n).toList := by
  have hvariant := hexDigit_ne_slash (n := 8 + (n >>> 60) % 4) (by omega)
  simp [ofRandom, slash_not_mem_digits, hvariant.symm]

end Uuid

namespace Transcript

open FileSystem

variable {fs fs' : FileSystem} {t : Transcript} {w : Workspace} {root : Location} {id : String}

theorem plain_logs : Path.Plain logs := by
  have h : logs = [46, 100, 101, 108, 101, 103, 97, 116, 101, 45, 108, 111, 103, 115] := by decide +kernel
  rw [h]
  exact ⟨by decide, by decide, by decide, by decide⟩

theorem plain_fileName (hid : '/' ∉ id.toList) : Path.Plain (fileName id) := by
  have hhead : (fileName id).head? = some 115 := by
    rw [fileName, Path.ofString, String.append_assoc, Utf8.bytes_append, List.head?_append]
    rfl
  refine ⟨?_, Utf8.slash_not_mem_bytes (by simp [hid]), ?_, ?_⟩ <;>
    (intro h; rw [h] at hhead; revert hhead; decide)

/-! ## Where a transcript stands -/

/-- What is opened is an absolute path, and its names lead to the directory of transcripts beside the root. -/
theorem opened_of_create (hroot : root.Plain) (hid : '/' ∉ id.toList)
    (hc : create fs root.path id = (fs', .ok t)) :
    root ≠ [] ∧ ∃ dir path, path.isAbsolute = true ∧
      Path.names path = root.dropLast ++ [logs, fileName id] ∧
      (fs.createDirAll dir).1.openForAppend path = .ok (t.file, fs') := by
  obtain ⟨parent, hparent, hopen⟩ := create_spec hc
  obtain ⟨habs, hnames, hne⟩ := Location.dropLast_of_parent? hroot hparent
  have hlogs := plain_logs
  have hfile := plain_fileName hid
  obtain ⟨hdir, hdirabs⟩ := Path.names_join habs hlogs.ne_nil hlogs.slash_not_mem
  obtain ⟨hpath, hpathabs⟩ := Path.names_join hdirabs hfile.ne_nil hfile.slash_not_mem
  rw [hdir, hnames, List.append_assoc, List.singleton_append] at hpath
  exact ⟨hne, _, _, hpathabs, hpath, hopen⟩

/-- In a tree without links a transcript stands in the directory of transcripts beside the root. -/
theorem file_of_create (ht : fs.IsTree) (hn : fs.NoLinks) (hroot : root.Plain) (hid : '/' ∉ id.toList)
    (hc : create fs root.path id = (fs', .ok t)) :
    root ≠ [] ∧ t.file = root.dropLast ++ [logs, fileName id] := by
  obtain ⟨hne, dir, path, habs, hpath, hopen⟩ := opened_of_create hroot hid hc
  refine ⟨hne, ?_⟩
  rw [← hpath]
  refine (hn.createDirAll dir).of_openForAppend (ht.createDirAll dir) habs ?_ hopen
  rw [hpath]
  intro n hmem
  rcases List.mem_append.mp hmem with hmem | hmem
  · exact hroot n (List.dropLast_subset _ hmem)
  · rcases List.mem_cons.mp hmem with rfl | hmem
    · exact plain_logs
    · rw [List.mem_singleton.mp hmem]; exact plain_fileName hid

/-- The root is not on the way to what stands beside it under another name. -/
theorem not_prefix_beside {n : Name} {rest : List Name} (hne : root ≠ [])
    (hlast : root.getLast? ≠ some n) :
    ¬ root <+: root.dropLast ++ n :: rest := by
  obtain ⟨front, last, rfl⟩ := (List.eq_nil_or_concat root).resolve_left hne
  intro h
  rw [List.concat_eq_append, List.dropLast_concat, List.prefix_append_right_inj,
    List.cons_prefix_cons] at h
  exact hlast (by rw [List.concat_eq_append, List.getLast?_concat, h.1])

theorem beside_not_prefix {n : Name} {l : Location} (hne : root ≠ []) (hlast : root.getLast? ≠ some n)
    (hl : root <+: l) : ¬ root.dropLast ++ [n] <+: l := by
  intro h
  have hpos := List.length_pos_iff.mpr hne
  refine not_prefix_beside hne hlast (List.prefix_of_prefix_length_le hl h ?_)
  rw [List.length_append, List.length_dropLast, List.length_singleton]
  omega

/-! ## Out of reach -/

/-- A transcript is open, and stands where the tools of a workspace do not write. -/
structure OutOfReach (w : Workspace) (t : Transcript) (fs : FileSystem) : Prop where
  tree : fs.IsTree
  root : fs.isDirAt w.root = true
  outside : ¬ Workspace.Inside w.root t.file
  opened : ∃ content, fs.get? t.file = some (.file content)

theorem outOfReach_of_create (ht : fs.IsTree) (hn : fs.NoLinks) (hr : fs.isDirAt w.root = true)
    (hplain : w.root.Plain) (hlast : w.root.getLast? ≠ some logs) (hid : '/' ∉ id.toList)
    (hc : create fs w.root.path id = (fs', .ok t)) : OutOfReach w t fs' := by
  obtain ⟨hne, hfile⟩ := file_of_create ht hn hplain hid hc
  obtain ⟨-, dir, path, habs, -, hopen⟩ := opened_of_create hplain hid hc
  have ht₁ := ht.createDirAll dir
  have hr₁ := (grows_createDirAll fs dir).isDirAt hr
  obtain ⟨hloc, hnil, rfl⟩ := openForAppend_spec hopen
  obtain ⟨-, -, -, hfree, hpar⟩ := locateForWriting_spec ht₁ habs hloc
  have hroot : w.root ≠ t.file := fun h => by rw [h, hfree] at hr₁; cases hr₁
  refine ⟨ht₁.put hnil hfree hpar, by rw [isDirAt_put_ne hroot hnil]; exact hr₁, fun hin => ?_, ?_⟩
  · rw [hfile] at hin
    exact not_prefix_beside hne hlast hin.1
  · exact ⟨_, by rw [get?_put _ _ _ _ hnil, if_pos rfl]⟩

namespace OutOfReach

variable (h : OutOfReach w t fs)
include h

theorem file_ne_nil : t.file ≠ [] := by
  obtain ⟨content, hget⟩ := h.opened
  intro hnil
  rw [hnil] at hget
  cases hget

theorem append (more : ByteArray) : OutOfReach w t (fs.append t.file more) := by
  have hnil := h.file_ne_nil
  obtain ⟨content, hget⟩ := h.opened
  have hfree : fs.isDirAt t.file = false := by simp [isDirAt, hget, Object.isDir]
  have hroot : w.root ≠ t.file := fun heq => by have hr := h.root; rw [heq, hfree] at hr; cases hr
  refine ⟨h.tree.put hnil hfree (h.tree _ _ hnil hget), ?_, h.outside, ?_⟩
  · rw [FileSystem.append, isDirAt_put_ne hroot hnil]; exact h.root
  · exact ⟨_, by rw [FileSystem.append, get?_put _ _ _ _ hnil, if_pos rfl]⟩

theorem log (time : Timestamp) (e : Event) : OutOfReach w t (t.log fs time e) := h.append _

theorem logAll (time : Timestamp) (es : List Event) : OutOfReach w t (t.logAll fs time es) := by
  induction es generalizing fs with
  | nil => exact h
  | cons e es ih => exact ih (h.log time e)

theorem execute (tool : String) (args : Dict Json) : OutOfReach w t (w.execute fs tool args).1 := by
  have kept := w.kept_execute h.tree h.root tool args
  obtain ⟨content, hget⟩ := h.opened
  exact ⟨kept.tree, kept.isDirAt_root h.root, h.outside, content, (kept.outside _ h.outside).trans hget⟩

theorem contentAt_execute (tool : String) (args : Dict Json) :
    (w.execute fs tool args).1.contentAt t.file = fs.contentAt t.file := by
  unfold contentAt
  rw [(w.kept_execute h.tree h.root tool args).outside _ h.outside]

end OutOfReach

/-! ## Deeds -/

/-- What happens to the files of a run: an event is logged, or a tool is called. -/
inductive Deed where
  | log (time : Timestamp) (e : Event)
  | call (tool : String) (args : Dict Json)

/-- The tree after a deed. -/
def act (t : Transcript) (w : Workspace) (fs : FileSystem) : Deed → FileSystem
  | .log time e => t.log fs time e
  | .call tool args => (w.execute fs tool args).1

/-- The tree after some deeds, one after the other. -/
def actAll (t : Transcript) (w : Workspace) (fs : FileSystem) (deeds : List Deed) : FileSystem :=
  deeds.foldl (t.act w) fs

/-- The entries that are logged among some deeds. -/
def logged : List Deed → Entries
  | [] => []
  | .log time e :: rest => (time, e) :: logged rest
  | .call _ _ :: rest => logged rest

theorem OutOfReach.actAll (h : OutOfReach w t fs) (deeds : List Deed) :
    OutOfReach w t (t.actAll w fs deeds) ∧
      (t.actAll w fs deeds).contentAt t.file = fs.contentAt t.file ++ (text (logged deeds)).toUTF8 := by
  induction deeds generalizing fs with
  | nil =>
    refine ⟨h, ?_⟩
    rw [logged, text, toUTF8_empty, ByteArray.append_empty]
    rfl
  | cons d deeds ih =>
    cases d with
    | log time e =>
      obtain ⟨hend, hcontent⟩ := ih (h.log time e)
      refine ⟨hend, hcontent.trans ?_⟩
      rw [contentAt_log h.file_ne_nil, if_pos rfl, ByteArray.append_assoc, ← toUTF8_text_append]
      rfl
    | call tool args =>
      obtain ⟨hend, hcontent⟩ := ih (h.execute tool args)
      refine ⟨hend, hcontent.trans ?_⟩
      rw [h.contentAt_execute]
      rfl

/-- Unless the workspace is itself a directory of transcripts, a transcript beside it holds what it held and
behind it the lines of what was logged to it, whatever the tools of the workspace did in between; and where
a listing succeeds, it is one of a directory in the workspace, and the transcript does not stand above it. -/
theorem untouched_by_tools (ht : fs.IsTree) (hn : fs.NoLinks) (hr : fs.isDirAt w.root = true)
    (hcan : fs.canonicalize w.root.path = .ok w.root) (hlast : w.root.getLast? ≠ some logs)
    (hid : '/' ∉ id.toList) (hc : create fs w.root.path id = (fs', .ok t)) (deeds : List Deed) :
    (t.actAll w fs' deeds).contentAt t.file = fs.contentAt t.file ++ (text (logged deeds)).toUTF8 ∧
      ∀ args, ∃ answer, (w.execute (t.actAll w fs' deeds) "list_dir" args).2 = .ok answer ∧
        ((∃ why, answer = Workspace.failure why) ∨
          ∃ l path, answer = Workspace.listing (t.actAll w fs' deeds) l path ∧ w.root <+: l ∧
            ¬ t.file.dropLast <+: l) := by
  have hplain := plain_of_canonicalize (Path.isAbsolute_location w.root) hcan
  obtain ⟨hne, hfile⟩ := file_of_create ht hn hplain hid hc
  have hout := outOfReach_of_create ht hn hr hplain hlast hid hc
  constructor
  · rw [(hout.actAll deeds).2, ← contentAt_create fs w.root.path id t.file, hc]
  · intro args
    refine ⟨_, rfl, ?_⟩
    rcases w.listDir_cases (t.actAll w fs' deeds) (((Dict.get? "path" args).bind Json.str?).getD ".") with
      ⟨why, h⟩ | ⟨l, -, hl, -, h⟩
    · exact Or.inl ⟨why, h⟩
    · refine Or.inr ⟨l, _, h, hl, ?_⟩
      rw [hfile, List.dropLast_append_cons, List.dropLast_cons_cons, List.dropLast_singleton]
      exact beside_not_prefix hne hlast hl

/-! ## Two workspaces -/

/-- A tree with one directory in its root. -/
def holding (n : Name) : FileSystem where
  objects := [([n], .dir)]

theorem get?_holding {n : Name} {l : Location} {o : Object} (hl : l ≠ [])
    (h : (holding n).get? l = some o) : l = [n] ∧ o = .dir := by
  rw [get?, if_neg hl, holding, List.lookup_cons] at h
  split at h
  · rename_i heq
    cases h
    exact ⟨by simpa using heq, rfl⟩
  · cases h

theorem isTree_holding (n : Name) : (holding n).IsTree := by
  intro l o hl h
  rw [(get?_holding hl h).1]
  exact isDirAt_root _

theorem noLinks_holding (n : Name) : (holding n).NoLinks := by
  intro l target h
  by_cases hl : l = []
  · rw [hl] at h; cases h
  · cases (get?_holding hl h).2

/-- The transcript of a sub-agent in the root's directory of transcripts. -/
def first : Transcript where
  path := Path.slash :: logs ++ Path.slash :: fileName (Uuid.ofRandom 0)
  file := [logs, fileName (Uuid.ofRandom 0)]

/-- An event is logged, and the tools try to overwrite it by way of the parent directory. -/
def overwritten : List Deed :=
  [.log Timestamp.epoch (.statusChange .running),
    .call "file_write" [("path", .str "../.delegate-logs/subagent-00000000-0000-4000-8000-000000000000.jsonl"),
      ("content", .str "")]]

theorem untouched_by_tools_overwritten :
    (first.actAll ⟨[[119]]⟩ (create (holding [119]) (Location.path [[119]]) (Uuid.ofRandom 0)).1
        overwritten).contentAt first.file = (text (logged overwritten)).toUTF8 := by
  have hc : create (holding [119]) (Location.path [[119]]) (Uuid.ofRandom 0) =
      ((create (holding [119]) (Location.path [[119]]) (Uuid.ofRandom 0)).1, .ok first) :=
    Prod.ext rfl (by cbv)
  obtain ⟨hcontent, -⟩ := untouched_by_tools (w := ⟨[[119]]⟩) (isTree_holding [119]) (noLinks_holding [119]) rfl
    (by cbv) (by decide +kernel) (Uuid.slash_not_mem_ofRandom 0) hc overwritten
  exact hcontent.trans ByteArray.empty_append

/-- A workspace that is itself a directory of transcripts: the tools list the transcript and empty it. -/
theorem exposed_in_logs :
    (holding logs).IsTree ∧ (holding logs).NoLinks ∧ (holding logs).isDirAt [logs] = true ∧
    (holding logs).canonicalize (Location.path [logs]) = .ok [logs] ∧
    ∃ fs, create (holding logs) (Location.path [logs]) (Uuid.ofRandom 0) = (fs, .ok first) ∧
      (Workspace.execute ⟨[logs]⟩ fs "list_dir" []).2 =
        .ok "\x7b\"entries\":[\"subagent-00000000-0000-4000-8000-000000000000.jsonl\"],\"path\":\".\"\x7d" ∧
      (first.actAll ⟨[logs]⟩ fs overwritten).contentAt first.file = .empty ∧
      (holding logs).contentAt first.file ++ (text (logged overwritten)).toUTF8 ≠ .empty := by
  refine ⟨isTree_holding logs, noLinks_holding logs, rfl, by cbv,
    (create (holding logs) (Location.path [logs]) (Uuid.ofRandom 0)).1, Prod.ext rfl (by cbv), by cbv, by cbv,
    fun h => ?_⟩
  have hsize :
      (((holding logs).contentAt first.file ++ (text (logged overwritten)).toUTF8).size == 0) = false := by cbv
  rw [h] at hsize
  cases hsize

end Transcript

end Overseer
