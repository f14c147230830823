import Mathlib.Data.List.Forall2
import Overseer.Model.Turn

/-!
# What the server is told of a conversation

Every message becomes one turn. The turn takes over the role, the tool calls, the id of the call that is
answered and the text, all but the text of an assistant that calls tools. So a conversation is known by its
turns up to such texts.

* `Turn.ofMessage_carries`: what a turn takes over of its message.
* `Turn.ofMessage_eq_iff`: which messages become the same turn.
* `conversation_carried`: both for whole conversations.
* `text_lost`: a text beside tool calls is not told.
-/
namespace Overseer

namespace Message

/-- Made by one of the constructors. -/
inductive Made : Message → Prop where
  | system (content : String) : Made (.system content)
  | user (content : String) : Made (.user content)
  | assistant (content : String) (calls : List ToolCall) : Made (.assistant content calls)
  | toolOutput (callId content : String) : Made (.toolOutput callId content)

/-- The same up to the text, and that is the same too unless tools are called. -/
structure Alike (m m' : Message) : Prop where
  role : m.role = m'.role
  toolCalls : m.toolCalls = m'.toolCalls
  toolCallId : m.toolCallId = m'.toolCallId
  content : m.toolCalls = [] → m.content = m'.content

/-- There is no text beside tool calls. -/
def OneThing (m : Message) : Prop := m.toolCalls = [] ∨ m.content = ""

theorem Alike.eq {m m' : Message} (h : Alike m m') (hm : m.OneThing) (hm' : m'.OneThing) : m = m' := by
  have hcontent : m.content = m'.content := by
    rcases hm with hcalls | hempty
    · exact h.content hcalls
    · rcases hm' with hcalls | hempty'
      · exact h.content (h.toolCalls.trans hcalls)
      · rw [hempty, hempty']
  obtain ⟨role, content, calls, callId⟩ := m
  obtain ⟨hrole, hcalls, hid, -⟩ := h
  simp only at hrole hcalls hid hcontent
  rw [hrole, hcontent, hcalls, hid]

end Message

namespace Model

namespace Turn

variable {m m' : Message}

/-- What a turn takes over of its message. -/
structure Carries (t : Turn) (m : Message) : Prop where
  role : t.role = m.role
  calls : t.calls = m.toolCalls
  callId : t.callId = m.toolCallId
  text : t.text = if m.toolCalls = [] then some m.content else none

theorem ofMessage_carries (hm : m.Made) : Carries (ofMessage m) m := by
  cases hm with
  | system content => exact ⟨rfl, rfl, rfl, rfl⟩
  | user content => exact ⟨rfl, rfl, rfl, rfl⟩
  | toolOutput callId content => exact ⟨rfl, rfl, rfl, rfl⟩
  | assistant content calls =>
    cases calls with
    | nil => exact ⟨rfl, rfl, rfl, rfl⟩
    | cons c calls => exact ⟨rfl, rfl, rfl, by simp [ofMessage, Message.assistant]⟩

/-- A turn is determined by what it takes over. -/
theorem Carries.eq {t t' : Turn} (h : Carries t m) (h' : Carries t' m') (hm : m.Alike m') : t = t' := by
  have htext : t.text = t'.text := by
    rw [h.text, h'.text, ← hm.toolCalls]
    split
    · rw [hm.content ‹_›]
    · rfl
  obtain ⟨role, text, calls, callId⟩ := t
  obtain ⟨role', text', calls', callId'⟩ := t'
  have hrole : role = role' := h.role.trans (hm.role.trans h'.role.symm)
  have hcalls : calls = calls' := h.calls.trans (hm.toolCalls.trans h'.calls.symm)
  have hid : callId = callId' := h.callId.trans (hm.toolCallId.trans h'.callId.symm)
  have htext : text = text' := htext
  rw [hrole, htext, hcalls, hid]

theorem Carries.alike {t : Turn} (h : Carries t m) (h' : Carries t m') : m.Alike m' where
  role := h.role.symm.trans h'.role
  toolCalls := h.calls.symm.trans h'.calls
  toolCallId := h.callId.symm.trans h'.callId
  content hcalls := by
    have hcalls' : m'.toolCalls = [] := (h.calls.symm.trans h'.calls).symm.trans hcalls
    have htext := h.text.symm.trans h'.text
    rw [if_pos hcalls, if_pos hcalls'] at htext
    exact Option.some.inj htext

theorem ofMessage_eq_iff (hm : m.Made) (hm' : m'.Made) : ofMessage m = ofMessage m' ↔ m.Alike m' := by
  constructor
  · intro h
    exact (ofMessage_carries hm).alike (h ▸ ofMessage_carries hm')
  · exact (ofMessage_carries hm).eq (ofMessage_carries hm')

end Turn

/-- Which conversations become the same turns. -/
theorem map_ofMessage_eq_iff {c c' : List Message} (hc : ∀ m ∈ c, m.Made) (hc' : ∀ m ∈ c', m.Made) :
    c.map Turn.ofMessage = c'.map Turn.ofMessage ↔ List.Forall₂ Message.Alike c c' := by
  induction c generalizing c' with
  | nil => cases c' <;> simp
  | cons m c ih =>
    cases c' with
    | nil => simp
    | cons m' c' =>
      have hm := hc m List.mem_cons_self
      have hm' := hc' m' List.mem_cons_self
      have hrest := ih (fun x hx => hc x (List.mem_cons_of_mem _ hx))
        fun x hx => hc' x (List.mem_cons_of_mem _ hx)
      simp only [List.map_cons, List.cons.injEq, List.forall₂_cons]
      rw [Turn.ofMessage_eq_iff hm hm', hrest]

theorem eq_of_alike {c c' : List Message} (h : List.Forall₂ Message.Alike c c')
    (hc : ∀ m ∈ c, m.OneThing) (hc' : ∀ m ∈ c', m.OneThing) : c = c' := by
  induction h with
  | nil => rfl
  | cons halike _ ih =>
    rw [halike.eq (hc _ List.mem_cons_self) (hc' _ List.mem_cons_self),
      ih (fun x hx => hc x (List.mem_cons_of_mem _ hx)) fun x hx => hc' x (List.mem_cons_of_mem _ hx)]

/-- The turns of a conversation carry its messages one for one, and conversations become the same turns
exactly if they differ in nothing but texts of messages that call tools: never, if no message has both. -/
theorem conversation_carried (c : List Message) (hc : ∀ m ∈ c, m.Made) :
    List.Forall₂ Turn.Carries (c.map Turn.ofMessage) c ∧
    ∀ c' : List Message, (∀ m ∈ c', m.Made) →
      (c.map Turn.ofMessage = c'.map Turn.ofMessage ↔ List.Forall₂ Message.Alike c c') ∧
      ((∀ m ∈ c, m.OneThing) → (∀ m ∈ c', m.OneThing) →
        c.map Turn.ofMessage = c'.map Turn.ofMessage → c = c') := by
  constructor
  · rw [List.forall₂_map_left_iff, List.forall₂_same]
    exact fun m hm => Turn.ofMessage_carries (hc m hm)
  · intro c' hc'
    have hiff := map_ofMessage_eq_iff hc hc'
    exact ⟨hiff, fun hone hone' h => eq_of_alike (hiff.mp h) hone hone'⟩

/-- A question that takes a look at the clock. -/
def timeAsked (callId : String) : List Message :=
  [.user "What time is it?", .assistant "" [⟨"1", "clock", []⟩], .toolOutput callId "noon"]

theorem made_timeAsked (callId : String) : ∀ m ∈ timeAsked callId, m.Made := by
  intro m hm
  simp only [timeAsked, List.mem_cons, List.not_mem_nil, or_false] at hm
  rcases hm with rfl | rfl | rfl
  · exact .user _
  · exact .assistant _ _
  · exact .toolOutput _ _

theorem oneThing_timeAsked (callId : String) : ∀ m ∈ timeAsked callId, m.OneThing := by
  intro m hm
  simp only [timeAsked, List.mem_cons, List.not_mem_nil, or_false] at hm
  rcases hm with rfl | rfl | rfl
  · exact Or.inl rfl
  · exact Or.inr rfl
  · exact Or.inl rfl

/-- An output under another call's id makes another request. -/
theorem conversation_carried_otherCall :
    (∀ m ∈ timeAsked "1", m.Made) ∧ (∀ m ∈ timeAsked "2", m.Made) ∧
    (∀ m ∈ timeAsked "1", m.OneThing) ∧ (∀ m ∈ timeAsked "2", m.OneThing) ∧
    List.Forall₂ Turn.Carries ((timeAsked "1").map Turn.ofMessage) (timeAsked "1") ∧
    (timeAsked "1").map Turn.ofMessage ≠ (timeAsked "2").map Turn.ofMessage := by
  obtain ⟨hcarried, hother⟩ := conversation_carried (timeAsked "1") (made_timeAsked "1")
  refine ⟨made_timeAsked "1", made_timeAsked "2", oneThing_timeAsked "1", oneThing_timeAsked "2",
    hcarried, fun h => ?_⟩
  have heq := (hother (timeAsked "2") (made_timeAsked "2")).2 (oneThing_timeAsked "1")
    (oneThing_timeAsked "2") h
  have hid : [none, none, some "1"] = [none, none, some "2"] := congrArg (List.map Message.toolCallId) heq
  exact absurd hid (by decide)

/-- A text beside tool calls is not told: with it and without it the request is the same. -/
theorem text_lost :
    Message.Made (.assistant "Let me look." [⟨"1", "clock", []⟩]) ∧
    Message.Made (.assistant "" [⟨"1", "clock", []⟩]) ∧
    Message.assistant "Let me look." [⟨"1", "clock", []⟩] ≠ .assistant "" [⟨"1", "clock", []⟩] ∧
    Turn.ofMessage (.assistant "Let me look." [⟨"1", "clock", []⟩]) =
      Turn.ofMessage (.assistant "" [⟨"1", "clock", []⟩]) ∧
    (Turn.ofMessage (.assistant "Let me look." [⟨"1", "clock", []⟩])).text = none := by
  refine ⟨.assistant _ _, .assistant _ _, fun h => ?_, rfl, rfl⟩
  have hcontent : "Let me look." = "" := congrArg Message.content h
  exact absurd hcontent (by decide)

end Model

end Overseer
