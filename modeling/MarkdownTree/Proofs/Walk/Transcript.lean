import MarkdownTree.Proofs.Walk.Calls

/-!
Transcripts: the questions and answers of a dialogue that came to its end. A run without an error
leaves one (`Dialogue.exists_transcript`), so that a fact about every transcript of a dialogue is a
fact about every such run, whatever the function does and whatever state it keeps.
-/

namespace MarkdownTree

variable {σ ε N A B α β γ : Type}

namespace Dialogue

/-- The dialogue ends with a given value after given questions and answers. -/
def Transcript : Dialogue N A α → List (N × A) → α → Prop
  | .done a, log, b => log = [] ∧ b = a
  | .ask node next, log, b => ∃ answer rest, log = (node, answer) :: rest ∧
      (next answer).Transcript rest b

theorem transcript_pure {log : List (N × A)} {a b : α} :
    (pure a : Dialogue N A α).Transcript log b ↔ log = [] ∧ b = a := Iff.rfl

theorem transcript_question {node : N} {log : List (N × A)} {a : A} :
    (question node).Transcript log a ↔ log = [(node, a)] := by
  constructor
  · rintro ⟨answer, rest, rfl, rfl, rfl⟩
    rfl
  · rintro rfl
    exact ⟨a, [], rfl, rfl, rfl⟩

theorem transcript_bind {d : Dialogue N A α} {k : α → Dialogue N A β} {log : List (N × A)} {b : β} :
    (d >>= k).Transcript log b ↔
      ∃ first rest a, log = first ++ rest ∧ d.Transcript first a ∧ (k a).Transcript rest b := by
  induction d generalizing log with
  | done a =>
    constructor
    · intro h
      exact ⟨[], log, a, rfl, ⟨rfl, rfl⟩, h⟩
    · rintro ⟨first, rest, a, rfl, ⟨rfl, rfl⟩, h⟩
      exact h
  | ask node next ih =>
    constructor
    · rintro ⟨answer, log, rfl, h⟩
      obtain ⟨first, rest, a, rfl, hfirst, hrest⟩ := ih answer |>.mp h
      exact ⟨(node, answer) :: first, rest, a, rfl, ⟨answer, first, rfl, hfirst⟩, hrest⟩
    · rintro ⟨first, rest, a, rfl, ⟨answer, first, rfl, hfirst⟩, hrest⟩
      exact ⟨answer, first ++ rest, rfl, (ih answer).mpr ⟨first, rest, a, rfl, hfirst, hrest⟩⟩

/-- One dialogue after another, and what is made of the two values. -/
theorem transcript_both {d : Dialogue N A α} {d' : Dialogue N A β} {make : α → β → γ}
    {log : List (N × A)} {c : γ} :
    (do let a ← d; let b ← d'; pure (make a b) : Dialogue N A γ).Transcript log c ↔
      ∃ first rest a b, log = first ++ rest ∧ d.Transcript first a ∧ d'.Transcript rest b ∧
        c = make a b := by
  constructor
  · intro h
    obtain ⟨first, rest, a, rfl, hfirst, h⟩ := transcript_bind.mp h
    obtain ⟨second, last, b, rfl, hsecond, h⟩ := transcript_bind.mp h
    obtain ⟨rfl, rfl⟩ := transcript_pure.mp h
    exact ⟨first, second, a, b, by rw [List.append_nil], hfirst, hsecond, rfl⟩
  · rintro ⟨first, rest, a, b, rfl, hfirst, hrest, rfl⟩
    refine transcript_bind.mpr ⟨first, rest, a, rfl, hfirst, ?_⟩
    exact transcript_bind.mpr ⟨rest, [], b, by rw [List.append_nil], hrest, rfl, rfl⟩

end Dialogue

/-! ### Calls without an error -/

/-- The calls lead from one state to another: each is what `f` does from the state that the one
before it left, and none fails. -/
def Chain (f : N → Fallible ε σ A) : σ → List (Call σ N A) → σ → Prop
  | s, [], s' => s' = s
  | s, c :: cs, s' => c.before = s ∧ (f c.node).run.run s = (.ok c.outcome, c.after) ∧
      Chain f c.after cs s'

/-- Where a function succeeds on nodes one after the other, each call starts in the state that the one
before it left. -/
theorem exists_chain_of_mapM {g : N → Fallible ε σ A} {nodes : List N} {s s' : σ} {out : List A}
    (h : (nodes.mapM g).run.run s = (.ok out, s')) :
    ∃ calls : List (Call σ N A), calls.map Call.node = nodes ∧ calls.map Call.outcome = out ∧
      Chain g s calls s' := by
  induction nodes generalizing s out with
  | nil =>
    cases h
    exact ⟨[], rfl, rfl, rfl⟩
  | cons node nodes ih =>
    rw [List.mapM_cons] at h
    obtain ⟨a, t, hnode, h⟩ := Fallible.exists_of_bind_eq_ok h
    obtain ⟨rest, t', hrest, h⟩ := Fallible.exists_of_bind_eq_ok h
    cases h
    obtain ⟨calls, rfl, rfl, hchain⟩ := ih hrest
    exact ⟨⟨node, s, a, t⟩ :: calls, rfl, rfl, rfl, hnode, hchain⟩

/-- What a call was given and what came out. -/
def Call.exchange (c : Call σ N A) : N × A := (c.node, c.outcome)

theorem Call.map_fst_exchange (calls : List (Call σ N A)) :
    (calls.map Call.exchange).map Prod.fst = calls.map Call.node := List.map_map ..

theorem Call.map_snd_exchange (calls : List (Call σ N A)) :
    (calls.map Call.exchange).map Prod.snd = calls.map Call.outcome := List.map_map ..

theorem Dialogue.exists_transcript {f : N → Fallible ε σ A} {d : Dialogue N A α} {s s' : σ} {a : α}
    (h : (d.run f).run.run s = (.ok a, s')) :
    ∃ calls : List (Call σ N A), d.tryCalls f s = calls.map (Call.map .ok) ∧
      Chain f s calls s' ∧ d.Transcript (calls.map Call.exchange) a := by
  induction d generalizing s with
  | done b =>
    cases h
    exact ⟨[], rfl, rfl, rfl, rfl⟩
  | ask node next ih =>
    rcases hf : (f node).run.run s with ⟨e | answer, t⟩
    · rw [run_ask_error hf] at h
      cases h
    · rw [run_ask_ok hf] at h
      obtain ⟨calls, hcalls, hchain, htranscript⟩ := ih answer h
      refine ⟨⟨node, s, answer, t⟩ :: calls, ?_, ⟨rfl, hf, hchain⟩, answer, _, rfl, htranscript⟩
      rw [tryCalls_ask_ok hf, hcalls]
      rfl

/-- A run without an error, with its calls. -/
theorem Walk.Natural.exists_transcript {walk : Walk N A B} (hw : walk.Natural)
    {f : N → Fallible ε σ A} {s s' : σ} {b : B} (h : (walk _ f).run.run s = (.ok b, s')) :
    ∃ calls : List (Call σ N A), walk.tryRun f s = (.ok b, ⟨s', calls.map (Call.map .ok)⟩) ∧
      Chain f s calls s' ∧ walk.dialogue.Transcript (calls.map Call.exchange) b := by
  obtain ⟨calls, hcalls, hchain, htranscript⟩ :=
    Dialogue.exists_transcript (f := f) (d := walk.dialogue) (by rwa [← hw.eq_run])
  exact ⟨calls, by rw [hw.tryRun_eq, h, hcalls], hchain, htranscript⟩

end MarkdownTree
