import Overseer.Proofs.Agent.Progress
import Overseer.Proofs.Workspace.Outcomes

/-!
# Runs with the tools of a workspace

A tool that fails ends the run. The tools of a workspace fail only when they are called wrongly, so whatever becomes
of the files meanwhile, a run that is ended by its tool has made a malformed call.

* `Run.failed_last`: the failure of a tool is the last thing that a run hears.
* `Executor.failed_of_ended`: a run that ends as if a tool had failed has heard of it, refusals apart.
* `failed_by_malformed`: what comes of every call, and which calls end a run.
-/
namespace Overseer.Agent

open Workspace (Malformed Done failure)

/-- How a run ends when its tool has failed. -/
def failedBy (call : ToolCall) (error : ToolError) : Ending :=
  ⟨.error, "", "tool '" ++ call.name ++ "' failed: " ++ error.message⟩

/-- How a run ends that would call a tool that it may not call. -/
def refusedBy (name : String) : Ending :=
  ⟨.error, "", "tool '" ++ name ++ "' is not allowed for this sub-agent"⟩

/-- A text that begins otherwise does not tell of a failed tool. -/
theorem failedBy_error_ne (call : ToolCall) (error : ToolError) {front : String} (hlength : 6 ≤ front.toList.length)
    (hne : front.toList.take 6 ≠ "tool '".toList) (rest : String) :
    (failedBy call error).error ≠ front ++ rest := by
  intro heq
  have htake := congrArg (fun text => text.toList.take 6) heq
  simp only [failedBy, String.append_assoc, String.toList_append] at htake
  rw [List.take_append_of_le_length hlength, List.take_append_of_le_length (by decide)] at htake
  exact hne htake.symm

namespace Run

/-- The failure of a tool is the last thing that a run hears. -/
theorem failed_last {scope : Scope} {r r' : Run} {heard : List Heard} {m : Moment} {error : ToolError}
    (hh : r.hearAll? scope heard = some r') (hmem : Heard.output m (.error error) ∈ heard) :
    ∃ call, ((r.moves scope heard).zip heard).getLast? = some (.invoke call, .output m (.error error)) ∧
      r'.point = .ended (failedBy call error) := by
  induction heard generalizing r with
  | nil => cases hmem
  | cons h rest ih =>
    obtain ⟨r₁, hear, hrest⟩ := Option.bind_eq_some_iff.mp hh
    rw [moves, hear]
    rcases List.mem_cons.mp hmem with rfl | hmem
    · simp only [hear?] at hear
      split at hear <;> cases hear
      rename_i i call more hpoint
      have hended : (r.hearOutput (m.sight scope) (.error error)).point = .ended (failedBy call error) := by
        simp only [hearOutput, hpoint]
        rfl
      have hmove : r.move = .invoke call := by rw [move, hpoint]
      -- a run that has ended hears nothing more
      obtain ⟨rfl, rfl⟩ := eq_of_hearAll?_ended hended hrest
      exact ⟨call, by rw [hmove]; rfl, hended⟩
    · obtain ⟨call, hlast, hended⟩ := ih hrest hmem
      refine ⟨call, ?_, hended⟩
      rw [List.zip_cons_cons, List.getLast?_cons, hlast]
      rfl

theorem iterate_not_failed (r : Run) (s : Sight) (i : Nat) (call : ToolCall) (error : ToolError) :
    (r.iterate s i).point ≠ .ended (failedBy call error) := by
  intro hp
  unfold iterate at hp
  split at hp
  · have htext := congrArg Ending.error (Point.ended.inj hp).symm
    rw [String.append_assoc] at htext
    exact failedBy_error_ne call error (by decide +kernel) (by decide +kernel) _ htext
  split at hp
  · cases hp
  split at hp
  · cases hp
  split at hp <;> cases hp

/-- An iteration that ends a run as if a tool had failed has heard of a failure, or the name of a tool that may not be
called makes it seem so. -/
theorem Exit.failed {scope : Scope} {r : Run} {h : Heard} {call : ToolCall} {error : ToolError}
    (exit : r.Exit scope h (failedBy call error)) :
    (∃ m error', h = .output m (.error error')) ∨
      ∃ name, isToolAllowed r.task.context.allowedTools name = false ∧ failedBy call error = refusedBy name := by
  generalize hending : failedBy call error = ending at exit
  have htext := congrArg Ending.error hending
  cases exit with
  | noOutput => exact Or.inl ⟨_, _, rfl⟩
  | notAllowed _ forbidden => exact Or.inr ⟨_, forbidden, rfl⟩
  | noReply => exact absurd htext (failedBy_error_ne call error (by decide +kernel) (by decide +kernel) _)
  | tokens =>
    change _ = "token limit exceeded (" ++ toString _ ++ "/" ++ toString _ ++ ")" at htext
    rw [String.append_assoc, String.append_assoc, String.append_assoc] at htext
    exact absurd htext (failedBy_error_ne call error (by decide +kernel) (by decide +kernel) _)
  | calls =>
    rw [String.append_assoc, String.append_assoc, String.append_assoc] at htext
    exact absurd htext (failedBy_error_ne call error (by decide +kernel) (by decide +kernel) _)
  | answer | late => cases hending

end Run

namespace Executor

/-- A run of a valid context that ends as if a tool had failed has heard of a failure, or the name of a tool that it
may not call makes it seem so. -/
theorem failed_of_ended {e : Executor} {c : Context} {scope : Scope} {s : Sight} {heard : List Heard} {r : Run}
    {call : ToolCall} {error : ToolError} (hv : c.validate = .ok ())
    (hh : (Run.start (Task.of c e.tools e.maxIterations) s).hearAll? scope heard = some r)
    (hended : r.point = .ended (failedBy call error)) :
    (∃ m error', .output m (.error error') ∈ heard) ∨
      ∃ name, isToolAllowed c.allowedTools name = false ∧ failedBy call error = refusedBy name := by
  obtain ⟨rfl, rfl⟩ | ⟨before, h, r₁, rfl, hbefore, hear, hnot⟩ := ended_cases hh hended
  · exact absurd hended (Run.iterate_not_failed _ _ _ call error)
  have hworks := works_of_start hv hbefore hnot
  cases Run.hears_of_hear? hworks.sober (hworks.timed (Context.timeout_of_validate hv)) hear with
  | call => cases hended
  | boundary => exact absurd hended (Run.iterate_not_failed _ _ _ call error)
  | exit exit point =>
    rw [hended] at point
    cases point
    obtain ⟨m, error', rfl⟩ | ⟨name, hforbidden, hname⟩ := exit.failed
    · exact Or.inl ⟨m, error', List.mem_append_right _ (List.mem_singleton.mpr rfl)⟩
    · rw [hworks.task] at hforbidden
      exact Or.inr ⟨name, hforbidden, hname⟩

/-- Each output that is heard is that of a workspace's tool for the call that was made, whatever files there are at
the time. -/
def ByTools (w : Workspace) (moves : List Move) (heard : List Heard) : Prop :=
  ∀ call m output, (Move.invoke call, Heard.output m output) ∈ moves.zip heard →
    ∃ fs, output = (w.execute fs call.name call.arguments).2

/-- A call is an error just if it is malformed, and then it has changed nothing. A call that the files allow is
done, and every other is answered by an object whose one key is `error`. So if a tool fails in a run, whatever the
files and whatever the model asks for, it has been called wrongly, by the last of the run's calls, and that is how
the run has ended; and no other run ends so, unless it is by the name of a tool that it may not call. -/
theorem failed_by_malformed (w : Workspace) :
    (∀ fs tool args,
      ((∃ error, (w.execute fs tool args).2 = .error error) ↔ Malformed tool args) ∧
      (Malformed tool args → (w.execute fs tool args).1 = fs) ∧
      (∀ fs' output, Done w fs tool args fs' output → w.execute fs tool args = (fs', .ok output)) ∧
      (¬Malformed tool args → (∀ fs' output, ¬Done w fs tool args fs' output) →
        ∃ text, (w.execute fs tool args).2 = .ok (failure text) ∧
          Json.Document.parse? (failure text) = some (.obj [(some "error", .str (some text))]))) ∧
    ∀ (e : Executor) c scope (m₀ : Moment) n e₁ heard e₂,
      e.enter c scope m₀.signals m₀.now = .ok (n, e₁) → Amid n e₁ heard e₂ → ByTools w (e₁.moves n heard) heard →
      (∀ m error, .output m (.error error) ∈ heard →
        ∃ call, Malformed call.name call.arguments ∧
          ((e₁.moves n heard).zip heard).getLast? = some (.invoke call, .output m (.error error)) ∧
          e₂.move? n = some (.finish (failedBy call error))) ∧
      ∀ call error, e₂.move? n = some (.finish (failedBy call error)) →
        (∃ m error', .output m (.error error') ∈ heard) ∨
          ∃ name, isToolAllowed c.allowedTools name = false ∧ failedBy call error = refusedBy name := by
  refine ⟨fun fs tool args => ⟨Workspace.execute_error_iff, fun h => ?_, fun _ _ => Workspace.execute_of_done,
    fun hform hnot => ?_⟩, ?_⟩
  · obtain ⟨error, herror⟩ := Workspace.execute_malformed h w fs
    rw [herror]
  · obtain ⟨text, htext⟩ := Workspace.execute_failure hform hnot
    exact ⟨text, htext, Workspace.parse?_failure text⟩
  · intro e c scope m₀ n e₁ heard e₂ henter hamid htools
    have hactive : e₁.active? n =
        some ⟨scope, Run.start (Task.of c e.tools e.maxIterations) (m₀.sight scope)⟩ := by
      obtain ⟨-, rfl, rfl⟩ := enter_inv henter
      exact active?_append.mpr (Or.inr ⟨rfl, rfl⟩)
    obtain ⟨r, hhear, hactive₂⟩ := hamid.run hactive
    refine ⟨fun m error hmem => ?_, fun call error hfinish => ?_⟩
    · obtain ⟨call, hlast, hended⟩ := Run.failed_last hhear hmem
      rw [← moves_eq hactive] at hlast
      obtain ⟨fs, hfs⟩ := htools call m _ (List.mem_of_getLast? hlast)
      exact ⟨call, Workspace.execute_error_iff.mp ⟨error, hfs.symm⟩, hlast, move?_ended hactive₂ hended⟩
    · rw [move?, hactive₂, Option.map_some] at hfinish
      exact failed_of_ended (valid_of_enter henter) hhear (Run.ended_of_move (Option.some.inj hfinish))

/-- A context that may call all tools. -/
def scribe : Context where
  id := "a"
  parentId := "parent"
  skill := "skill"
  allowedTools := none
  limits := {}
  history := []
  createdAt := default
  metadata := []

/-- The model asks for a listing of a place outside, and then for a file without a content. -/
def carelessly : List ToolCall :=
  [⟨"1", "list_dir", [("path", .str "..")]⟩, ⟨"2", "file_write", [("path", .str "f")]⟩]

/-- Why the second of these calls fails. -/
def contentless : ToolError := .invalidArguments "file_write" "missing or invalid 'content' argument"

/-- The first of these calls is answered by a failure, the second is an error. -/
def refused : List Heard :=
  [.reply ⟨{}, 1⟩ (.ok (.toolUse carelessly 4)),
    .output ⟨{}, 2⟩ (.ok (failure "list_dir: path '..' is outside the workspace directory")),
    .output ⟨{}, 3⟩ (.error contentless)]

theorem failed_by_malformed_refused :
    ∃ n e₁ e₂, (new Workspace.definitions 2).enter scribe ⟨⟨0, []⟩, none⟩ {} 0 = .ok (n, e₁) ∧
      Amid n e₁ refused e₂ ∧ ByTools ⟨[[119]]⟩ (e₁.moves n refused) refused ∧
      ∃ call, Malformed call.name call.arguments ∧ e₂.move? n = some (.finish (failedBy call contentless)) := by
  obtain ⟨e₁, henter, -⟩ := enter_ok (e := new Workspace.definitions 2) ⟨⟨0, []⟩, none⟩ ⟨{}, 0⟩
    (c := scribe) rfl rfl
  have hamid : ∃ e₂, Amid 0 e₁ refused e₂ := by
    cases henter
    exact ⟨_, .hears rfl (.hears rfl (.hears rfl (.nil _)))⟩
  obtain ⟨e₂, hamid⟩ := hamid
  have hmoves : ∃ request ending, e₁.moves 0 refused =
      .ask request :: (carelessly.map Move.invoke ++ [.finish ending]) := by
    cases henter
    exact ⟨_, _, rfl⟩
  have htools : ByTools ⟨[[119]]⟩ (e₁.moves 0 refused) refused := by
    obtain ⟨request, ending, hmoves⟩ := hmoves
    intro call m output hmem
    rw [hmoves] at hmem
    simp only [carelessly, refused, List.map_cons, List.map_nil, List.cons_append, List.zip_cons_cons,
      List.zip_nil_right, List.mem_cons, Prod.mk.injEq, reduceCtorEq, false_and, Move.invoke.injEq,
      Heard.output.injEq, List.not_mem_nil, or_false, false_or] at hmem
    obtain ⟨rfl, -, rfl⟩ | ⟨rfl, -, rfl⟩ := hmem
    · exact ⟨{ objects := [([[119]], .dir)] }, by cbv⟩
    · exact ⟨{}, rfl⟩
  obtain ⟨-, hruns⟩ := failed_by_malformed ⟨[[119]]⟩
  obtain ⟨call, hform, -, hended⟩ :=
    (hruns _ _ _ _ _ _ _ _ henter hamid htools).1 ⟨{}, 3⟩ contentless (by simp [refused])
  exact ⟨_, e₁, e₂, henter, hamid, htools, call, hform, hended⟩

end Executor

end Overseer.Agent
